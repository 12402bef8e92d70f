import TraceExport.Text.Basic

/-!
File paths. A path is kept as it was written; what it means is its list of
components, in which repeated separators and inner `.` parts have vanished.
Two paths name the same place, one is below another, and one sorts before
another, according to their components.
-/

namespace TraceExport

/-- One part of a path. Only the first part can be the root or the current
directory. -/
inductive Component where
  | root
  | current
  | parent
  | normal (name : String)
deriving DecidableEq, Repr

namespace Component

def text : Component → String
  | root => "/"
  | current => "."
  | parent => ".."
  | normal name => name

/-- What a piece of text between two separators stands for, if anything. -/
def ofPiece? : List Char → Option Component
  | [] => none
  | ['.'] => none
  | ['.', '.'] => some parent
  | piece => some (normal (String.ofList piece))

/-- The rank of a component when paths are sorted; names come last. -/
def rank : Component → Nat
  | root => 0
  | current => 1
  | parent => 2
  | normal _ => 3

/-- Names are compared by their characters. -/
def compare : Component → Component → Ordering
  | normal a, normal b => Ord.compare a b
  | a, b => Ord.compare a.rank b.rank

end Component

structure Path where
  text : String
deriving DecidableEq, Repr, Inhabited

namespace Path

def isSeparator (c : Char) : Bool := c == '/'

def isAbsolute (p : Path) : Bool := Text.startsWith ['/'] p.text.toList

/-- What comes before the named parts: the root, a leading `.`, or nothing. -/
def anchor (pieces : List (List Char)) (absolute : Bool) : List Component :=
  if absolute then [.root] else if pieces.head? = some ['.'] then [.current] else []

def components (p : Path) : List Component :=
  let pieces := Text.splitOn isSeparator p.text.toList
  anchor pieces p.isAbsolute ++ pieces.filterMap Component.ofPiece?

def slashed (texts : List String) : String :=
  String.ofList (Text.join ['/'] (texts.map String.toList))

/-- The plainest path with these components. -/
def ofComponents : List Component → Path
  | .root :: cs => ⟨"/" ++ slashed (cs.map Component.text)⟩
  | cs => ⟨slashed (cs.map Component.text)⟩

/-- The components with slashes between them. The root is a component, so an
absolute path comes out with a doubled slash in front. -/
def slashText (p : Path) : String := slashed (p.components.map Component.text)

/-- The path `q` as seen from `p`: an absolute `q` stands for itself. -/
def join (p q : Path) : Path :=
  if q.isAbsolute then q
  else if p.text.isEmpty || Text.endsWith ['/'] p.text.toList then ⟨p.text ++ q.text⟩
  else ⟨p.text ++ "/" ++ q.text⟩

/-- The components of `p` below `base`, if it lies there. -/
def below? : (base p : List Component) → Option (List Component)
  | [], p => some p
  | _ :: _, [] => none
  | b :: base, c :: p => if b = c then below? base p else none

def fileName? (p : Path) : Option String :=
  match p.components.getLast? with
  | some (.normal name) => some name
  | _ => none

/-- The path without its last component; the root and the empty path have no
parent. -/
def parent? (p : Path) : Option Path :=
  match p.components.getLast? with
  | none | some .root => none
  | some _ => some (ofComponents p.components.dropLast)

/-- Order by components, a path before those below it. -/
def compareComponents : List Component → List Component → Ordering
  | [], [] => .eq
  | [], _ :: _ => .lt
  | _ :: _, [] => .gt
  | a :: as, b :: bs => (a.compare b).then (compareComponents as bs)

def sortsBefore (p q : Path) : Bool :=
  compareComponents p.components q.components != .gt

end Path

end TraceExport
