import TraceExport.Command.Arguments
import TraceExport.Project.Config
import TraceExport.Project.Discovery

/-!
The commands: exporting specifications and checking whether they can be
exported. A command works on the files of a project and leaves a transcript of
what it printed.
-/

namespace TraceExport.Command

open Project Report

/-- What a command printed, and whether it went well. -/
structure Transcript where
  out : String
  err : String
  ok : Bool
deriving DecidableEq, Repr

def Transcript.failure (message : String) : Transcript := ⟨"", "❌ " ++ message ++ "\n", false⟩

def versionText : String :=
  "AutoQA CLI v0.1.0\nTrace format: " ++ Trace.fileName ++ "\n"

/-- What is printed below the report on a check: the actions of each
specification that lack a locator. -/
def missingText (spec : String) (e : Export.Exportability) : String :=
  if e.missing.isEmpty then ""
  else
    "\n" ++ spec ++ "\n" ++
      String.join (e.missing.map fun action => "  missing locator: " ++ action.text ++ "\n")

def checkTranscript (format : Format) (runId : String)
    (results : List (String × Export.Exportability)) : Transcript :=
  let report : Report := ⟨checkHeaders, results.map fun (spec, e) => checkRow spec e⟩
  let details := if format == .table then
      String.join (results.map fun (spec, e) => missingText spec e)
    else ""
  let blocked := (results.filter fun r => !r.2.exportable).length
  let warning := if blocked > 0 && format != .json then
      "⚠️  " ++ toString blocked ++ " spec(s) cannot be exported from run " ++ runId ++ "\n"
    else ""
  ⟨report.print format ++ details, warning, blocked == 0⟩

def exportTranscript (format : Format) (runId : String)
    (results : List (String × Export.Outcome)) : Transcript :=
  let report : Report := ⟨exportHeaders, results.map fun (spec, o) => exportRow spec o⟩
  let failed := (results.filter fun r => !r.2.ok).length
  let total := toString results.length
  let success := if failed == 0 && format != .json then
      "✅ Exported " ++ total ++ " spec(s) from run " ++ runId ++ "\n"
    else ""
  let failure := if failed > 0 && format != .json then
      "❌ " ++ toString failed ++ " of " ++ total ++ " export(s) failed\n"
    else ""
  ⟨report.print format ++ success, failure, failed == 0⟩

section

variable {m : Type → Type} [Monad m] [FileSystem m]

def check (cwd : Path) (format : Format) (a : CheckArguments) : m Transcript := do
  match ← discover cwd a.spec with
  | .error e => pure (.failure e.chain)
  | .ok specs =>
    match ← resolveRun cwd a.runId with
    | .error e => pure (.failure e.chain)
    | .ok runId =>
      let results ← specs.mapM fun spec => do
        let result ← Export.check cwd runId (Path.inProject cwd spec.path)
        pure (Path.shown cwd spec.path, Export.Exportability.ofResult result)
      pure (checkTranscript format runId results)

def exportOptions (cwd dir : Path) (runId : String) (a : ExportArguments) (spec : SpecFile) :
    Export.Options where
  cwd := cwd
  runId := runId
  specPath := Path.inProject cwd spec.path
  spec := spec.spec
  baseUrl := a.baseUrl
  loginBaseUrl := a.loginBaseUrl
  rawSpec := some spec.raw
  exportDir := some dir

def exportAll (cwd : Path) (config : Config) (format : Format) (a : ExportArguments) :
    m Transcript := do
  match ← discover cwd a.spec with
  | .error e => pure (.failure e.chain)
  | .ok specs =>
    match ← resolveRun cwd a.runId with
    | .error e => pure (.failure e.chain)
    | .ok runId =>
      let dir := a.exportDir.getD config.exportPath
      let results ← specs.mapM fun spec => do
        let result ← Export.run (exportOptions cwd dir runId a spec)
        pure (Path.shown cwd spec.path, Export.Outcome.ofResult result)
      pure (exportTranscript format runId results)

/-- Runs a command in a directory. Only an export reads the configuration. -/
def run (workDir : Path) (args : Arguments) : m Transcript := do
  let cwd := (workDir.join args.cwd).normalize
  match args.action with
  | .version => pure ⟨versionText, "", true⟩
  | .checkSpecs a => check cwd args.format a
  | .exportSpecs a =>
    match ← Config.load cwd with
    | .error e => pure (.failure e.chain)
    | .ok config => exportAll cwd config args.format a

end

end TraceExport.Command
