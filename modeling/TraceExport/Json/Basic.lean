/-!
JSON values. An object is the list of its members as they were written, so a
repeated name is still visible. A value that is well formed but stands for
nothing (half of a surrogate pair, a number beyond all doubles) is kept as
`unreadable`: it may be passed over, but not used.

`plain?` is the view on a value that may be used anywhere: all of it readable,
and each name once in an object.
-/

namespace TraceExport

inductive Json where
  | null
  | bool (b : Bool)
  /-- An integer from -2^63 up to 2^64 - 1. -/
  | integer (n : Int)
  | float (x : Float)
  | string (s : String)
  | array (items : List Json)
  | object (members : List (String × Json))
  | unreadable
deriving Inhabited

namespace Json

def member? (name : String) (members : List (String × Json)) : Option Json :=
  (members.find? (·.1 == name)).map (·.2)

/-- Sets a member; an earlier value under this name gives way. -/
def setMember (name : String) (value : Json) : List (String × Json) → List (String × Json)
  | [] => [(name, value)]
  | (n, v) :: rest =>
    if n = name then (name, value) :: rest else (n, v) :: setMember name value rest

/-- The members with each name once, the last value of a name counting. -/
def lastMembers (members : List (String × Json)) : List (String × Json) :=
  members.foldl (fun kept m => setMember m.1 m.2 kept) []

mutual

/-- How deep a value is nested: an array or object is one deeper than the deepest
value in it. -/
def depth : Json → Nat
  | array items => depthOfItems items + 1
  | object members => depthOfMembers members + 1
  | _ => 0

def depthOfItems : List Json → Nat
  | [] => 0
  | item :: items => max (depth item) (depthOfItems items)

def depthOfMembers : List (String × Json) → Nat
  | [] => 0
  | (_, value) :: members => max (depth value) (depthOfMembers members)

end

mutual

/-- The value as it may be used, if all of it can be read. -/
def plain? : Json → Option Json
  | null => some null
  | bool b => some (bool b)
  | integer n => some (integer n)
  | float x => some (float x)
  | string s => some (string s)
  | array items => (plainItems? items).map array
  | object members => (plainMembers? members).map fun ms => object (lastMembers ms)
  | unreadable => none

def plainItems? : List Json → Option (List Json)
  | [] => some []
  | item :: items =>
    match plain? item, plainItems? items with
    | some v, some vs => some (v :: vs)
    | _, _ => none

def plainMembers? : List (String × Json) → Option (List (String × Json))
  | [] => some []
  | (name, value) :: members =>
    match plain? value, plainMembers? members with
    | some v, some vs => some ((name, v) :: vs)
    | _, _ => none

end

end Json

end TraceExport
