import TraceExport.Path.Basic

/-!
Lexical normalization: `.` and `..` are resolved from the text of a path
alone. A `..` that has nothing to undo is kept, and is itself undone by the
`..` after it.
-/

namespace TraceExport.Path

/-- Adds a component to a resolved path, given as a stack with its last
component on top. -/
def settle (stack : List Component) : Component → List Component
  | .current => stack
  | .parent =>
    match stack with
    | [] => [.parent]
    | .root :: below => .parent :: .root :: below
    | _ :: below => below
  | c => c :: stack

/-- The components left once `.` and `..` are resolved. -/
def settled (cs : List Component) : List Component := (cs.foldl settle []).reverse

def normalize (p : Path) : Path := ofComponents (settled p.components)

/-- The normalized path that `p` names in the directory `cwd`. -/
def resolve (cwd p : Path) : Path :=
  if p.isAbsolute then normalize p else normalize (cwd.join p)

/-- The part of `p` below `base`, both as they stand. -/
def relativeTo? (base p : Path) : Option Path :=
  (below? base.components p.components).map ofComponents

end TraceExport.Path
