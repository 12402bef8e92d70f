import TraceExport.Text.Utf8

/-!
Percent encoding. Each part of a URL has its own set of characters that are
written as escaped bytes; control characters and everything outside ASCII are
always escaped.
-/

namespace TraceExport.Url

def isAlwaysEscaped (c : Char) : Bool := c.toNat < 0x20 || 0x7F ≤ c.toNat

def isEscapedInFragment (c : Char) : Bool :=
  isAlwaysEscaped c || " \"<>\x60".toList.contains c

def isEscapedInPath (c : Char) : Bool := isEscapedInFragment c || "#?\x7b\x7d".toList.contains c

def isEscapedInUserinfo (c : Char) : Bool := isEscapedInPath c || "/:;=@[\\]^|".toList.contains c

def isEscapedInQuery (c : Char) : Bool := isAlwaysEscaped c || " \"#<>".toList.contains c

/-- In a special URL a quotation mark is escaped as well. -/
def isEscapedInSpecialQuery (c : Char) : Bool := isEscapedInQuery c || c == '\''

/-- A hexadecimal digit, a capital from ten on. -/
def upperHexDigit (n : Nat) : Char := (Nat.digitChar n).toUpper

def escapeByte (b : UInt8) : List Char :=
  ['%', upperHexDigit (b.toNat / 16), upperHexDigit (b.toNat % 16)]

def escape (escaped : Char → Bool) (s : List Char) : List Char :=
  s.flatMap fun c => if escaped c then (String.utf8EncodeChar c).flatMap escapeByte else [c]

def hexValue? (c : Char) : Option Nat :=
  if c.isDigit then some (c.toNat - '0'.toNat)
  else if 'a' ≤ c.toLower ∧ c.toLower ≤ 'f' then some (c.toLower.toNat - 'a'.toNat + 10)
  else none

/-- The bytes that a text stands for. A percent sign without two digits after it
stands for itself. -/
def unescape : List Char → List UInt8
  | [] => []
  | '%' :: a :: b :: s =>
    match hexValue? a, hexValue? b with
    | some x, some y => UInt8.ofNat (16 * x + y) :: unescape s
    | _, _ => 0x25 :: unescape (a :: b :: s)
  | c :: s => String.utf8EncodeChar c ++ unescape s

end TraceExport.Url
