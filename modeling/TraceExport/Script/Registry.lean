import TraceExport.Script.Name
import TraceExport.Script.Rename

/-!
The names that are bound in one script. A name that is taken is made new by a
number, and the declaration of a fragment is renamed accordingly.
-/

namespace TraceExport.Script

structure Registry where
  used : List String
deriving DecidableEq, Repr

namespace Registry

/-- The names that every script binds, and some more. -/
def seeded (names : List String) : Registry := ⟨fileBindings ++ names⟩

def contains (r : Registry) (name : String) : Bool := r.used.contains name

/-- The names that are tried once `base` is taken, one more than there are names
taken. -/
def numbered (r : Registry) (base : String) : List String :=
  (List.range (r.used.length + 1)).map fun k => base ++ toString (k + 2)

/-- A free name: `base`, or else the first free one of `base2`, `base3`, … -/
def freeName (r : Registry) (base : String) : String :=
  if r.contains base then ((r.numbered base).find? (!r.contains ·)).getD base else base

def claim (r : Registry) (base : String) : String × Registry :=
  (r.freeName base, ⟨r.freeName base :: r.used⟩)

end Registry

open Text

/-- The name of a declaration that a text starts with. -/
def declarationAt? (s : List Char) : Option (List Char) :=
  match dropPrefix? "const".toList s with
  | none => none
  | some rest =>
    let s := trimStart rest
    if s.length = rest.length then none
    else
      match s.head?, (trimStart (s.dropWhile isIdentChar)).head? with
      | some c, some '=' => if isIdentStart c then some (s.takeWhile isIdentChar) else none
      | _, _ => none

/-- The name of the first declaration of a text, wherever it stands. -/
def firstDeclaration? : List Char → Option (List Char)
  | [] => none
  | c :: s =>
    match declarationAt? (c :: s) with
    | some name => some name
    | none => firstDeclaration? s

def declaredName? (code : String) : Option String :=
  (firstDeclaration? code.toList).map String.ofList

/-- Gives the declaration of a fragment a name that is not taken. -/
def distinguish (code : String) (r : Registry) : String × Registry :=
  match declaredName? code with
  | none => (code, r)
  | some name =>
    let (free, r) := r.claim name
    (if free = name then code else rename name free code, r)

end TraceExport.Script
