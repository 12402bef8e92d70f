import TraceExport.Text.Basic
import TraceExport.Text.Lowercase
import TraceExport.Url.Percent
import TraceExport.Url.Punycode

/-!
Hosts of URLs. A host in brackets is an address of version 6. In a special URL
every other host is a domain name in lower case, or an address of version 4 when
its last part is a number; in other URLs it is any text.
-/

namespace TraceExport.Url

open Text

inductive Host where
  | domain (name : String)
  /-- An address of 32 bits. -/
  | ipv4 (address : Nat)
  /-- The eight groups of an address. -/
  | ipv6 (groups : List Nat)
deriving DecidableEq, Repr

def number? (base : Nat) (s : List Char) : Option Nat :=
  s.foldlM (fun n c => do
    let d ← hexValue? c
    if d < base then some (n * base + d) else none) 0

/-- A part of an address of version 4: decimal, octal after a zero, hexadecimal
after `0x`. -/
def ipv4Part? : List Char → Option Nat
  | [] => none
  | '0' :: c :: s => if c == 'x' || c == 'X' then number? 16 s else number? 8 (c :: s)
  | s => number? 10 s

/-- The parts between the dots; a dot at the end adds none. -/
def dotted (s : List Char) : List (List Char) :=
  let parts := splitOn (· == '.') s
  if parts.getLast? = some [] then parts.dropLast else parts

/-- Whether a domain name has to be read as an address. -/
def endsInNumber (s : List Char) : Bool :=
  match (dotted s).getLast? with
  | some last => (!last.isEmpty && last.all Char.isDigit) || (ipv4Part? last).isSome
  | none => false

/-- The address that some parts stand for; the last one fills what is left. -/
def ipv4OfParts? (parts : List Nat) : Option Nat :=
  match parts.reverse with
  | [] => none
  | last :: front =>
    if front.length < 4 ∧ front.all (· < 256) ∧ last < Nat.pow 256 (4 - front.length) then
      some ((front.reverse.zipIdx.map fun (n, i) => n * Nat.pow 256 (3 - i)).foldl (· + ·) last)
    else none

def ipv4? (s : List Char) : Option Host := do
  let parts ← (dotted s).mapM ipv4Part?
  (ipv4OfParts? parts).map .ipv4

/-- A group of an address of version 6: one to four hexadecimal digits. -/
def ipv6Group? (s : List Char) : Option Nat :=
  if s.isEmpty || 4 < s.length then none else number? 16 s

/-- A decimal number below 256 without a leading zero. -/
def octet? (s : List Char) : Option Nat :=
  match s with
  | [] => none
  | '0' :: _ :: _ => none
  | s => (if s.all Char.isDigit then number? 10 s else none).filter (· < 256)

def ipv6Dotted? (s : List Char) : Option (List Nat) :=
  match (splitOn (· == '.') s).mapM octet? with
  | some [a, b, c, d] => some [a * 256 + b, c * 256 + d]
  | _ => none

/-- The groups of an address between colons. The last one may be dotted. -/
def ipv6Groups? (mayBeDotted : Bool) (s : List Char) : Option (List Nat) :=
  if s.isEmpty then some []
  else
    let pieces := splitOn (· == ':') s
    let last := pieces.getLast?.getD []
    if mayBeDotted && last.contains '.' then do
      pure ((← pieces.dropLast.mapM ipv6Group?) ++ (← ipv6Dotted? last))
    else pieces.mapM ipv6Group?

/-- Cuts a text at its first doubled colon. -/
def splitDouble? : List Char → Option (List Char × List Char)
  | [] => none
  | ':' :: ':' :: s => some ([], s)
  | c :: s => (splitDouble? s).map fun r => (c :: r.1, r.2)

/-- Reads an address of version 6. A doubled colon stands for one or more groups
of zeros. -/
def ipv6? (s : List Char) : Option Host := do
  match splitDouble? s with
  | none =>
    let groups ← ipv6Groups? true s
    if groups.length = 8 then some (.ipv6 groups) else none
  | some (left, right) =>
    let left ← ipv6Groups? false left
    let right ← ipv6Groups? true right
    if left.length + right.length < 8 then
      some (.ipv6 (left ++ List.replicate (8 - left.length - right.length) 0 ++ right))
    else none

def isForbiddenInDomain (c : Char) : Bool :=
  c.toNat ≤ 0x20 || c.toNat == 0x7F || "%#/:<>?@[\\]^|".toList.contains c

/-- Characters that no host has, whatever the URL. -/
def isForbiddenInHost (c : Char) : Bool :=
  "\x00\t\n\r #/:<>?@[\\]^|".toList.contains c

def codedMark : List Char := "xn--".toList

/-- A label in ASCII. A label that is already coded has to be the code of a
label outside ASCII. -/
def asciiLabel? (label : List Char) : Option (List Char) :=
  if label.all (·.toNat < 0x80) then
    match dropPrefix? codedMark label with
    | none => some label
    | some coded =>
      match Punycode.decode? coded with
      | some plain =>
        if Punycode.encode plain = coded ∧ plain.any (0x80 ≤ ·.toNat) then some label else none
      | none => none
  else some (codedMark ++ Punycode.encode label)

def domain? (s : List Char) : Option Host := do
  let name ← Utf8.decode? (unescape s)
  let labels ← (splitOn (· == '.') (lower name)).mapM asciiLabel?
  let name := join ['.'] labels
  if name.isEmpty || name.any isForbiddenInDomain then none
  else if endsInNumber name then ipv4? name
  else some (.domain (String.ofList name))

/-- The text between brackets, if a text opens with one. -/
def bracketed (s : List Char) : Option (Option (List Char)) :=
  match s with
  | '[' :: rest => some (dropSuffix? [']'] rest)
  | _ => none

def specialHost? (s : List Char) : Option Host :=
  match bracketed s with
  | some inside => inside.bind ipv6?
  | none => domain? s

def plainHost? (s : List Char) : Option Host :=
  match bracketed s with
  | some inside => inside.bind ipv6?
  | none =>
    if s.any isForbiddenInHost then none
    else some (.domain (String.ofList (escape isAlwaysEscaped s)))

def zeroRun (groups : List Nat) : Nat := (groups.takeWhile (· == 0)).length

/-- Where the first longest run of zeros starts, and its length. -/
def longestZeros (groups : List Nat) : Nat × Nat :=
  (List.range groups.length).foldl
    (fun best i => if best.2 < zeroRun (groups.drop i) then (i, zeroRun (groups.drop i)) else best)
    (0, 0)

def hexText (n : Nat) : List Char := Nat.toDigits 16 n

/-- Writes the groups of an address, its longest run of zeros shortened if it
has at least two. -/
def ipv6Text (groups : List Nat) : List Char :=
  let (start, length) := longestZeros groups
  let text (gs : List Nat) := join [':'] (gs.map hexText)
  if length < 2 then text groups
  else text (groups.take start) ++ [':', ':'] ++ text (groups.drop (start + length))

def ipv4Text (address : Nat) : String :=
  String.ofList (join ['.'] ([3, 2, 1, 0].map fun i => Nat.toDigits 10 (address / Nat.pow 256 i % 256)))

def Host.text : Host → String
  | domain name => name
  | ipv4 address => ipv4Text address
  | ipv6 groups => "[" ++ String.ofList (ipv6Text groups) ++ "]"

end TraceExport.Url
