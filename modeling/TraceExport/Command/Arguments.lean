import TraceExport.Path.Basic
import TraceExport.Report.Basic

/-!
The command line. Options may stand anywhere, with their value behind them or
after an equals sign; some of them may also come from the environment.
-/

namespace TraceExport.Command

structure CheckArguments where
  spec : Path
  runId : Option String
deriving DecidableEq, Repr

structure ExportArguments where
  spec : Path
  runId : Option String
  baseUrl : String
  loginBaseUrl : Option String
  exportDir : Option Path
deriving DecidableEq, Repr

inductive Action where
  | exportSpecs (a : ExportArguments)
  | checkSpecs (a : CheckArguments)
  | version
deriving DecidableEq, Repr

structure Arguments where
  cwd : Path
  format : Report.Format
  action : Action
deriving DecidableEq, Repr

structure Words where
  options : List (String × String)
  plain : List String

def valueOptions : List String :=
  ["--cwd", "--format", "--run-id", "--base-url", "--login-base-url", "--export-dir"]

def flags : List String := ["-v", "--verbose"]

/-- Cuts an option off the value after its equals sign. -/
def splitOption (word : String) : Option (String × String) :=
  let cs := word.toList
  match cs.dropWhile (· != '=') with
  | _ :: value => some (String.ofList (cs.takeWhile (· != '=')), String.ofList value)
  | [] => none

/-- Sorts out the words of a command line; those it does not know are refused. -/
def sortOut : List String → Option Words
  | [] => some ⟨[], []⟩
  | [word] =>
    if flags.contains word then some ⟨[], []⟩
    else if Text.startsWith ['-'] word.toList then
      match splitOption word with
      | some (name, value) =>
        if valueOptions.contains name then some ⟨[(name, value)], []⟩ else none
      | none => none
    else some ⟨[], [word]⟩
  | word :: next :: rest =>
    if flags.contains word then sortOut (next :: rest)
    else if valueOptions.contains word then
      (sortOut rest).map fun w => { w with options := (word, next) :: w.options }
    else if Text.startsWith ['-'] word.toList then
      match splitOption word with
      | some (name, value) =>
        if valueOptions.contains name then
          (sortOut (next :: rest)).map fun w => { w with options := (name, value) :: w.options }
        else none
      | none => none
    else (sortOut (next :: rest)).map fun w => { w with plain := word :: w.plain }

def Words.option? (w : Words) (name : String) : Option String :=
  (w.options.find? (·.1 == name)).map (·.2)

/-- Reads a command line. `env` looks up an entry of the environment. -/
def Arguments.read? (env : String → Option String) (line : List String) : Option Arguments := do
  let words ← sortOut line
  let format ← Report.Format.ofName? ((words.option? "--format").getD "table")
  let cwd : Path := ⟨(words.option? "--cwd").getD "."⟩
  let runId := (words.option? "--run-id").or (env "AUTOQA_RUN_ID")
  match words.plain with
  | ["version"] => some ⟨cwd, format, .version⟩
  | ["check", spec] => some ⟨cwd, format, .checkSpecs ⟨⟨spec⟩, runId⟩⟩
  | ["export", spec] =>
    let baseUrl ← (words.option? "--base-url").or (env "AUTOQA_BASE_URL")
    let login := (words.option? "--login-base-url").or (env "AUTOQA_LOGIN_BASE_URL")
    let exportDir := (words.option? "--export-dir").map Path.mk
    some ⟨cwd, format, .exportSpecs ⟨⟨spec⟩, runId, baseUrl, login, exportDir⟩⟩
  | _ => none

end TraceExport.Command
