import TraceExport.Path.Normal

/-!
The form of a path that may be printed. Paths in the project are shown from
its root; of paths elsewhere only a recognisable tail is shown, so that no
absolute path is ever printed.
-/

namespace TraceExport.Path

/-- The directory of a project that holds its runs. -/
def artifactsDir : String := ".autoqa"

def shownOutside (p : Path) : String :=
  let tail := p.components.dropWhile (·.text != artifactsDir)
  if tail.isEmpty then
    match p.fileName? with
    | some name => if Text.endsWith ".spec.ts".toList name.toList then name else "[redacted]"
    | none => "[redacted]"
  else slashText (ofComponents tail)

/-- The printed form of a path, seen from the project root `cwd`. -/
def shown (cwd p : Path) : String :=
  let p := normalize p
  match relativeTo? (normalize cwd) p with
  | some below => below.slashText
  | none => if p.isAbsolute then shownOutside p else p.slashText

/-- A path as it is recorded in a trace: from the project root when it is below
it, and as it is otherwise. -/
def inProject (cwd p : Path) : Path :=
  (relativeTo? (normalize cwd) (normalize p)).getD (normalize p)

end TraceExport.Path
