import TraceExport.Json.Number

/-!
Reading JSON texts. The reader follows the grammar strictly and keeps what it
reads; whether a value can be used is left to those who ask for it. Blanks are
space, tab, line feed and carriage return only.
-/

namespace TraceExport.Json

def isSpace (c : Char) : Bool := c == ' ' || c == '\t' || c == '\n' || c == '\r'

def skipSpace (s : List Char) : List Char := s.dropWhile isSpace

/-- What a string literal is made of. An escape may give half of a surrogate
pair, which is no character by itself. -/
inductive StringUnit where
  | scalar (c : Char)
  | surrogate (n : Nat)

/-- The characters of a string literal, if its surrogates come in pairs. -/
def characters? : List StringUnit → Option (List Char)
  | [] => some []
  | .scalar c :: rest => (characters? rest).map (c :: ·)
  | .surrogate high :: .surrogate low :: rest =>
    if high < 0xDC00 ∧ 0xDC00 ≤ low then
      (characters? rest).map
        (Char.ofNat (0x10000 + (high - 0xD800) * 0x400 + (low - 0xDC00)) :: ·)
    else none
  | .surrogate _ :: _ => none

def hexValue? (c : Char) : Option Nat :=
  if c.isDigit then some (c.toNat - '0'.toNat)
  else if 'a' ≤ c ∧ c ≤ 'f' then some (c.toNat - 'a'.toNat + 10)
  else if 'A' ≤ c ∧ c ≤ 'F' then some (c.toNat - 'A'.toNat + 10)
  else none

def simpleEscape? : Char → Option Char
  | '"' => some '"'
  | '\\' => some '\\'
  | '/' => some '/'
  | 'b' => some '\x08'
  | 'f' => some '\x0c'
  | 'n' => some '\n'
  | 'r' => some '\r'
  | 't' => some '\t'
  | _ => none

def hexUnit? (a b c d : Char) : Option StringUnit := do
  let n := (((← hexValue? a) * 16 + (← hexValue? b)) * 16 + (← hexValue? c)) * 16 + (← hexValue? d)
  pure (if 0xD800 ≤ n ∧ n < 0xE000 then .surrogate n else .scalar (Char.ofNat n))

/-- Reads a string literal after its opening quote. -/
def readUnits? : List Char → Option (List StringUnit × List Char)
  | [] => none
  | '"' :: rest => some ([], rest)
  | '\\' :: 'u' :: a :: b :: c :: d :: rest => do
    let unit ← hexUnit? a b c d
    let (units, rest) ← readUnits? rest
    pure (unit :: units, rest)
  | '\\' :: c :: rest => do
    let unit ← simpleEscape? c
    let (units, rest) ← readUnits? rest
    pure (.scalar unit :: units, rest)
  | c :: rest =>
    if c.toNat < 0x20 ∨ c = '\\' then none
    else do
      let (units, rest) ← readUnits? rest
      pure (.scalar c :: units, rest)

/-- The text of a string literal, if it has one. -/
def unitsText? (units : List StringUnit) : Option String :=
  (characters? units).map String.ofList

def readWord? (s : List Char) : Option (Json × List Char) :=
  match s with
  | 'n' :: 'u' :: 'l' :: 'l' :: rest => some (null, rest)
  | 't' :: 'r' :: 'u' :: 'e' :: rest => some (bool true, rest)
  | 'f' :: 'a' :: 'l' :: 's' :: 'e' :: rest => some (bool false, rest)
  | _ => none

/-- Puts a member in front of those after it; `none` stands for members of
which a name cannot be read. -/
def consMember (name : Option String) (value : Json) :
    Option (List (String × Json)) → Option (List (String × Json))
  | some members => name.map fun n => (n, value) :: members
  | none => none

/-- The object of its members, if their names can be read. -/
def objectOf : Option (List (String × Json)) → Json
  | some members => object members
  | none => unreadable

mutual

/-- Reads a value at the start of a text that begins with no blank. The fuel
bounds the values read, and the length of the text is enough of it. -/
def readValue? : Nat → List Char → Option (Json × List Char)
  | 0, _ => none
  | _ + 1, '"' :: s => do
    let (units, rest) ← readUnits? s
    pure (match unitsText? units with
      | some text => string text
      | none => unreadable, rest)
  | fuel + 1, '[' :: s =>
    match skipSpace s with
    | ']' :: rest => some (array [], rest)
    | s => (readItems? fuel s).map fun r => (array r.1, r.2)
  | fuel + 1, '\x7b' :: s =>
    match skipSpace s with
    | '\x7d' :: rest => some (object [], rest)
    | s => (readMembers? fuel s).map fun r => (objectOf r.1, r.2)
  | _ + 1, c :: s =>
    if c == '-' || c.isDigit then readNumber? (c :: s) else readWord? (c :: s)
  | _ + 1, [] => none

def readItems? : Nat → List Char → Option (List Json × List Char)
  | 0, _ => none
  | fuel + 1, s => do
    let (item, s) ← readValue? fuel s
    match skipSpace s with
    | ',' :: s =>
      let (items, rest) ← readItems? fuel (skipSpace s)
      pure (item :: items, rest)
    | ']' :: rest => pure ([item], rest)
    | _ => none

def readMembers? : Nat → List Char → Option (Option (List (String × Json)) × List Char)
  | 0, _ => none
  | fuel + 1, '"' :: s => do
    let (units, s) ← readUnits? s
    match skipSpace s with
    | ':' :: s =>
      let (value, s) ← readValue? fuel (skipSpace s)
      match skipSpace s with
      | ',' :: s =>
        let (members, rest) ← readMembers? fuel (skipSpace s)
        pure (consMember (unitsText? units) value members, rest)
      | '\x7d' :: rest => pure (consMember (unitsText? units) value (some []), rest)
      | _ => none
    | _ => none
  | _ + 1, _ => none

end

/-- The value that a text writes, with nothing but blanks around it. -/
def parse? (text : String) : Option Json :=
  let s := text.toList
  match readValue? (2 * s.length + 2) (skipSpace s) with
  | some (value, rest) => if (skipSpace rest).isEmpty then some value else none
  | none => none

end TraceExport.Json
