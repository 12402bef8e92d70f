import TraceExport.Json.Basic

/-!
Taking JSON values apart. A record is written as an object of named fields, or
as an array of its fields in their order; `fields` brings both into one form.
Names that are not fields are passed over, except where a record is closed.
-/

namespace TraceExport.Json

/-- Why a text or a value is not what was asked for. -/
inductive Fault where
  | notJson
  | missing (field : String)
  | repeated (field : String)
  | unknown (field : String)
  | surplus (most : Nat)
  | tooDeep (limit : Nat)
  | mismatch (expected : String)
deriving DecidableEq, Repr

def Fault.message : Fault → String
  | notJson => "not a JSON value"
  | missing field => "missing field " ++ field
  | repeated field => "duplicate field " ++ field
  | unknown field => "unknown field " ++ field
  | surplus most => "more than " ++ toString most ++ " elements"
  | tooDeep limit => "nested deeper than " ++ toString limit ++ " levels"
  | mismatch expected => "expected " ++ expected

abbrev Decoder (α : Type) := Json → Except Fault α

def valuesOf (members : List (String × Json)) (name : String) : List Json :=
  (members.filter (·.1 == name)).map (·.2)

/-- What is written for each field of a record. -/
abbrev Fields := String → Option Json

def fields (names : List String) : Decoder Fields
  | object members =>
    match names.find? fun name => (valuesOf members name).length > 1 with
    | some name => .error (.repeated name)
    | none => .ok fun name => member? name members
  | array items =>
    if items.length ≤ names.length then
      .ok fun name => (names.idxOf? name).bind (items[·]?)
    else .error (.surplus names.length)
  | _ => .error (.mismatch "a record")

/-- Like `fields`, for records that allow no other names. -/
def closedFields (names : List String) : Decoder Fields
  | object members =>
    match members.find? fun m => !names.contains m.1 with
    | some m => .error (.unknown m.1)
    | none => fields names (object members)
  | value => fields names value

def required {α : Type} (decode : Decoder α) (fs : Fields) (name : String) : Except Fault α :=
  match fs name with
  | none => .error (.missing name)
  | some value => decode value

/-- A field that stands for `absent` when it is not written. -/
def defaulting {α : Type} (absent : α) (decode : Decoder α) (fs : Fields) (name : String) :
    Except Fault α :=
  match fs name with
  | none => .ok absent
  | some value => decode value

/-- A field that may be left out or null. -/
def optional {α : Type} (decode : Decoder α) (fs : Fields) (name : String) :
    Except Fault (Option α) :=
  match fs name with
  | none | some null => .ok none
  | some value => (decode value).map some

def asString : Decoder String
  | string s => .ok s
  | _ => .error (.mismatch "a string")

def asBool : Decoder Bool
  | bool b => .ok b
  | _ => .error (.mismatch "a boolean")

def asInteger (least most : Int) : Decoder Int
  | integer n => if least ≤ n ∧ n ≤ most then .ok n else .error (.mismatch "a smaller integer")
  | _ => .error (.mismatch "an integer")

def asNat32 : Decoder Nat := fun value => (asInteger 0 (Int.pow 2 32 - 1) value).map Int.toNat

def asPositive32 : Decoder Nat := fun value => (asInteger 1 (Int.pow 2 32 - 1) value).map Int.toNat

def asList {α : Type} (decode : Decoder α) : Decoder (List α)
  | array items => items.mapM decode
  | _ => .error (.mismatch "an array")

/-- One of some names, written as a string or as the only member of an object
whose value is null. -/
def asName {α : Type} (names : List (String × α)) (value : Json) : Except Fault α :=
  let pick (s : String) : Except Fault α :=
    match names.find? (·.1 == s) with
    | some entry => .ok entry.2
    | none => .error (.mismatch "a known name")
  match value with
  | string s => pick s
  | object [(s, null)] => pick s
  | _ => .error (.mismatch "a name")

/-- The member of an optional field, left out when there is none. -/
def memberOf? {α : Type} (name : String) (encode : α → Json) : Option α → List (String × Json)
  | none => []
  | some value => [(name, encode value)]

end TraceExport.Json
