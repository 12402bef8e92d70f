import TraceExport.Command.Basic

/-!
The program: the commands on the files of the machine it runs on.
-/

namespace TraceExport

/-- What went wrong, in the terms of this library. -/
def fileError : IO.Error → FileError
  | .noFileOrDirectory .. => .notFound
  | .alreadyExists .. => .alreadyExists
  | .inappropriateType _ code details =>
    if code == 20 then .notDirectory else if code == 21 then .isDirectory else .other details
  | e => .other (toString e)

def attempt {α : Type} (action : IO α) : IO (Except FileError α) := do
  try
    return .ok (← action)
  catch e =>
    return .error (fileError e)

/-- The kind of what a metadata record describes, if it is a file or directory. -/
def kindOf (data : IO.FS.Metadata) : Option FileKind :=
  match data.type with
  | .dir => some .directory
  | .file => some .file
  | _ => none

def nanoseconds (t : IO.FS.SystemTime) : Nat := (t.sec * 1000000000 + t.nsec.toNat).toNat

def readEntries (p : Path) : IO (List DirEntry) := do
  let root ← IO.currentDir
  let found ← (root / p.text).readDir
  let entries ← found.toList.mapM fun entry => do
    let data ← entry.path.symlinkMetadata
    return (kindOf data).map fun kind => ⟨entry.fileName, kind, nanoseconds data.modified⟩
  return entries.filterMap id

partial def walk (p : Path) : IO (List Path) := do
  let entries ← readEntries p
  let found ← entries.mapM fun entry => do
    let path := p.join ⟨entry.name⟩
    match entry.kind with
    | .file => return [path]
    | .directory => walk path
  return found.flatten

instance : FileSystem IO where
  kind? p := do
    let root ← IO.currentDir
    try
      return kindOf (← (root / p.text).metadata)
    catch _ =>
      return none
  readText p := do
    match ← attempt (IO.FS.readBinFile p.text) with
    | .error e => return .error e
    | .ok bytes =>
      match String.fromUTF8? bytes with
      | some text => return .ok text
      | none => return .error .notText
  entries p := attempt (readEntries p)
  filesBelow p := attempt (walk p)
  makeDirectory p := attempt (IO.FS.createDirAll p.text)
  writeText p text := attempt (IO.FS.writeFile p.text text)

/-- Entries of the environment that a command may be given by. -/
def environmentKeys : List String :=
  ["AUTOQA_RUN_ID", "AUTOQA_BASE_URL", "AUTOQA_LOGIN_BASE_URL"]

end TraceExport

open TraceExport in
/-- Runs the command of the command line in the current directory. -/
def main (line : List String) : IO UInt32 := do
  let entries ← environmentKeys.mapM fun key => do return (key, ← IO.getEnv key)
  let env (key : String) : Option String := (entries.find? (·.1 == key)).bind (·.2)
  match Command.Arguments.read? env line with
  | none =>
    IO.eprintln "usage: autoqa [--cwd DIR] [--format table|json|plain] export|check|version"
    return 2
  | some args =>
    let workDir : Path := ⟨(← IO.currentDir).toString⟩
    let transcript ← Command.run workDir args
    IO.print transcript.out
    IO.eprint transcript.err
    return if transcript.ok then 0 else 1
