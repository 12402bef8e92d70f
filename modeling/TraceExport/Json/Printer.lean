import TraceExport.Json.Basic
import TraceExport.Decimal.Shortest
import TraceExport.Text.Basic

/-!
Writing JSON values, on one line or laid out with two blanks a level. A double
is written with the fewest digits that read back, and always with a fraction or
an exponent, so that it is not taken for an integer.
-/

namespace TraceExport.Json

def hexDigit (n : Nat) : Char := Nat.digitChar n

def escapeChar (c : Char) : List Char :=
  match c with
  | '"' => ['\\', '"']
  | '\\' => ['\\', '\\']
  | '\x08' => ['\\', 'b']
  | '\x0c' => ['\\', 'f']
  | '\n' => ['\\', 'n']
  | '\r' => ['\\', 'r']
  | '\t' => ['\\', 't']
  | c =>
    if c.toNat < 0x20 then
      ['\\', 'u', '0', '0', hexDigit (c.toNat / 16), hexDigit (c.toNat % 16)]
    else [c]

def quote (s : String) : String :=
  String.ofList ('"' :: s.toList.flatMap escapeChar ++ ['"'])

/-- A positive decimal, positional unless its exponent is far from zero. -/
def decimalText (d : Decimal) : String :=
  let d := d.stripped
  let ds := Nat.toDigits 10 d.digits
  let point : Int := ds.length + d.exponent
  let zeros (n : Nat) := List.replicate n '0'
  let body :=
    if 0 ≤ d.exponent ∧ point ≤ 16 then ds ++ zeros d.exponent.natAbs ++ ['.', '0']
    else if 0 < point ∧ point ≤ 16 then ds.take point.natAbs ++ '.' :: ds.drop point.natAbs
    else if -5 < point ∧ point ≤ 0 then '0' :: '.' :: zeros point.natAbs ++ ds
    else
      let fraction := if ds.length ≤ 1 then [] else '.' :: ds.drop 1
      ds.take 1 ++ fraction ++ 'e' :: (toString (point - 1)).toList
  String.ofList body

/-- A double; infinities and what is not a number have no form in JSON. -/
def floatText (x : Float) : String :=
  let bits := x.toBits.toNat
  let sign := if bits < Nat.pow 2 63 then "" else "-"
  let power : Nat := bits / Nat.pow 2 52 % Nat.pow 2 11
  let fraction : Nat := bits % Nat.pow 2 52
  if power = 2047 then "null"
  else if power = 0 ∧ fraction = 0 then sign ++ "0.0"
  else if power = 0 then sign ++ decimalText (Decimal.shortest fraction (-1074))
  else sign ++ decimalText (Decimal.shortest (Nat.pow 2 52 + fraction) ((power : Int) - 1075))

def boolText (b : Bool) : String := if b then "true" else "false"

mutual

/-- The value on one line, without blanks. -/
def render : Json → String
  | null | unreadable => "null"
  | bool b => boolText b
  | integer n => toString n
  | float x => floatText x
  | string s => quote s
  | array items => "[" ++ renderItems items ++ "]"
  | object members => "\x7b" ++ renderMembers members ++ "\x7d"

def renderItems : List Json → String
  | [] => ""
  | [item] => render item
  | item :: items => render item ++ "," ++ renderItems items

def renderMembers : List (String × Json) → String
  | [] => ""
  | [(name, value)] => quote name ++ ":" ++ render value
  | (name, value) :: members => quote name ++ ":" ++ render value ++ "," ++ renderMembers members

end

/-- A line break and the blanks of a level. -/
def newline (level : Nat) : String := String.ofList ('\n' :: List.replicate (2 * level) ' ')

mutual

/-- The value laid out over several lines; `level` is the depth it stands at. -/
def layout (level : Nat) : Json → String
  | array [] => "[]"
  | array items => "[" ++ layoutItems (level + 1) items ++ newline level ++ "]"
  | object [] => "\x7b\x7d"
  | object members => "\x7b" ++ layoutMembers (level + 1) members ++ newline level ++ "\x7d"
  | null | unreadable => "null"
  | bool b => boolText b
  | integer n => toString n
  | float x => floatText x
  | string s => quote s

def layoutItems (level : Nat) : List Json → String
  | [] => ""
  | [item] => newline level ++ layout level item
  | item :: items => newline level ++ layout level item ++ "," ++ layoutItems level items

def layoutMembers (level : Nat) : List (String × Json) → String
  | [] => ""
  | [(name, value)] => newline level ++ quote name ++ ": " ++ layout level value
  | (name, value) :: members =>
    newline level ++ quote name ++ ": " ++ layout level value ++ "," ++
      layoutMembers level members

end

end TraceExport.Json
