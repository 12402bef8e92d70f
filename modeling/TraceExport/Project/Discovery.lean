import TraceExport.Path.Shown
import TraceExport.Spec.Markdown
import TraceExport.Trace.Store

/-!
Finding what to export: the specifications that an argument names, and the run
to take the trace from. A directory stands for all Markdown files below it; a run
that is not named is the one changed last.
-/

namespace TraceExport.Project

inductive DiscoveryError where
  | noSpec (shown : String)
  | unreadableSpec (shown : String) (e : FileError)
  | unreadableDirectory (shown : String) (e : FileError)
  | noRunsDirectory (shown : String) (e : FileError)
  | noRuns
deriving DecidableEq, Repr

/-- The message together with its cause. -/
def DiscoveryError.chain : DiscoveryError → String
  | noSpec shown => "Spec not found: " ++ shown
  | unreadableSpec shown e => "Failed to read spec " ++ shown ++ ": " ++ e.message
  | unreadableDirectory shown e => "Failed to read specs under " ++ shown ++ ": " ++ e.message
  | noRunsDirectory shown e =>
    "No runs found under " ++ shown ++ "; pass --run-id: " ++ e.message
  | noRuns => "No runs found; pass --run-id"

structure SpecFile where
  path : Path
  raw : String
  spec : Spec
deriving DecidableEq, Repr

def SpecFile.ofText (path : Path) (raw : String) : SpecFile := ⟨path, raw, Spec.ofMarkdown raw⟩

/-- The part of a file name after its last point; a point in front starts no
extension. -/
def extension? (name : List Char) : Option (List Char) :=
  let ext := (name.reverse.takeWhile (· != '.')).reverse
  if name.length ≤ ext.length + 1 then none else some ext

def isMarkdown (p : Path) : Bool :=
  match p.fileName? with
  | some name => ((extension? name.toList).map fun ext => ext.map Char.toLower) == some ['m', 'd']
  | none => false

section

variable {m : Type → Type} [Monad m] [FileSystem m]

/-- Reads some specifications, up to the first that cannot be read. -/
def readSpecs : List Path → m (Except FileError (List SpecFile))
  | [] => pure (.ok [])
  | p :: rest => do
    match ← FileSystem.readText p with
    | .error e => pure (.error e)
    | .ok raw => pure ((← readSpecs rest).map (SpecFile.ofText p raw :: ·))

def specsBelow (dir : Path) : m (Except FileError (List SpecFile)) := do
  match ← FileSystem.filesBelow dir with
  | .error e => pure (.error e)
  | .ok files => readSpecs ((files.filter isMarkdown).mergeSort Path.sortsBefore)

def discover (cwd target : Path) : m (Except DiscoveryError (List SpecFile)) := do
  let path := Path.resolve cwd target
  let shown := Path.shown cwd path
  match ← FileSystem.kind? path with
  | some .directory => pure ((← specsBelow path).mapError (.unreadableDirectory shown))
  | some .file => pure ((← readSpecs [path]).mapError (.unreadableSpec shown))
  | none => pure (.error (.noSpec shown))

/-- Whether one run was changed after another, or at the same time and has the
greater name. -/
def isLater (a b : DirEntry) : Bool :=
  b.modified < a.modified || (b.modified == a.modified && b.name < a.name)

def latestRun? (entries : List DirEntry) : Option DirEntry :=
  (entries.filter (·.kind == .directory)).foldl
    (fun latest run =>
      match latest with
      | none => some run
      | some best => if isLater run best then some run else latest)
    none

/-- The run that is named, or else the one that was changed last. -/
def resolveRun (cwd : Path) (named : Option String) : m (Except DiscoveryError String) := do
  match named with
  | some id => pure (.ok id)
  | none =>
    let dir := Trace.runsDir cwd
    match ← FileSystem.entries dir with
    | .error e => pure (.error (.noRunsDirectory (Path.shown cwd dir) e))
    | .ok entries =>
      match latestRun? entries with
      | some run => pure (.ok run.name)
      | none => pure (.error .noRuns)

end

end TraceExport.Project
