import TraceExport.Path.Segment
import TraceExport.Path.Shown

/-!
Where the test for a specification is written. The file is named after the path
of the specification in the project, with its separators flattened, and lies in
the export directory.
-/

namespace TraceExport.Export

def defaultDir : Path := ⟨"tests/autoqa"⟩

/-- The text without an extension `.md`, in either case. -/
def withoutMarkdown (s : List Char) : List Char :=
  match s.reverse with
  | d :: m :: '.' :: front =>
    if m.toLower = 'm' ∧ d.toLower = 'd' then front.reverse else s
  | _ => s

/-- The path of a specification from the root of the project, or its name when it
lies elsewhere. -/
def pathInProject (cwd spec : Path) : String :=
  let resolved := Path.resolve cwd spec
  match Path.relativeTo? cwd.normalize resolved with
  | some below => below.slashText
  | none => resolved.fileName?.getD ""

def fileName (cwd spec : Path) : String :=
  let stem := withoutMarkdown (pathInProject cwd spec).toList
  let flat := stem.map fun c => if Segment.isSeparator c then '-' else c
  Segment.sanitize (String.ofList flat) ++ ".spec.ts"

/-- The export directory, from the root of the file system. -/
def directory (cwd : Path) (dir : Option Path) : Path := Path.resolve cwd (dir.getD defaultDir)

def path (cwd spec : Path) (dir : Option Path) : Path :=
  (directory cwd dir).join ⟨fileName cwd spec⟩

def shownPath (cwd spec : Path) (dir : Option Path) : String :=
  Path.shown cwd (path cwd spec dir)

end TraceExport.Export
