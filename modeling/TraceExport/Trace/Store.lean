import TraceExport.Files.Basic
import TraceExport.Path.Segment
import TraceExport.Path.Shown
import TraceExport.Trace.Codec

/-!
The traces of a project. Each run has a directory of its own, named after the
run, and its trace is a file in it. Traces are only read here.
-/

namespace TraceExport.Trace

def fileName : String := "ir.jsonl"

/-- The directory of a project that holds one directory for each run. -/
def runsDir (cwd : Path) : Path := (cwd.join ⟨Path.artifactsDir⟩).join ⟨"runs"⟩

def path (cwd : Path) (runId : String) : Path :=
  ((runsDir cwd).join ⟨Segment.sanitize runId⟩).join ⟨fileName⟩

inductive ReadError where
  | malformed (found : Malformed)
  | file (e : FileError)
deriving DecidableEq, Repr

def ReadError.message : ReadError → String
  | malformed m =>
    "Malformed trace record at line " ++ toString m.line ++ ": " ++ m.reason
  | file e => "IO error: " ++ e.message

/-- Whether a record belongs to a specification; both paths are taken from the
root of the project. -/
def Record.isFor (cwd spec : Path) (r : Record) : Bool :=
  (Path.resolve cwd ⟨r.specPath⟩).components == (Path.resolve cwd spec).components

section

variable {m : Type → Type} [Monad m] [FileSystem m]

def readAll (cwd : Path) (runId : String) : m (Except ReadError (List Record)) := do
  match ← FileSystem.readText (path cwd runId) with
  | .error e => pure (.error (.file e))
  | .ok text => pure ((readRecords text).mapError .malformed)

def readForSpec (cwd : Path) (runId : String) (spec : Path) :
    m (Except ReadError (List Record)) := do
  pure ((← readAll cwd runId).map fun records => records.filter (Record.isFor cwd spec))

end

end TraceExport.Trace
