import TraceExport.Json.Basic

/-!
Numbers as JSON writes them. The digits are collected into a 64-bit
significand. Digits of the whole part that no longer fit only raise the
exponent, and digits of the fraction that no longer fit are dropped. Without
fraction and exponent the number is an integer, provided that it fits.
-/

namespace TraceExport.Json

structure Numeral where
  negative : Bool
  whole : List Char
  fraction : Option (List Char)
  exponent : Option (Bool × List Char)

namespace Numeral

def digitValue (c : Char) : Nat := c.toNat - '0'.toNat

/-- Appends digits to a significand while it stays below 2^64. Yields the
significand and the digits that did not fit. -/
def absorb (significand : Nat) : List Char → Nat × List Char
  | [] => (significand, [])
  | c :: digits =>
    let next := significand * 10 + digitValue c
    if next < Nat.pow 2 64 then absorb next digits else (significand, c :: digits)

/-- The powers of ten that a double is scaled by in one step end here. -/
def scaleLimit : Nat := 308

def powerOfTen (n : Nat) : Float := Float.ofScientific 1 false n

/-- Divides by powers of ten, at most `scaleLimit` places at a time. -/
def scaleDown (x : Float) (places : Nat) : Float :=
  if places ≤ scaleLimit then x / powerOfTen places
  else if x == 0.0 then x
  else scaleDown (x / powerOfTen scaleLimit) (places - scaleLimit)
termination_by places
decreasing_by simp [scaleLimit] at *; omega

/-- The double `significand * 10 ^ exponent`; a number that is too large has
none. -/
def scaled? (significand : Nat) (exponent : Int) : Option Float :=
  let x := significand.toUInt64.toFloat
  if exponent < 0 then some (scaleDown x exponent.natAbs)
  else if exponent.natAbs ≤ scaleLimit then
    let y := x * powerOfTen exponent.natAbs
    if y.isInf then none else some y
  else if x == 0.0 then some x
  else none

/-- The largest exponent that is read; the digits after it are not looked at. -/
def exponentLimit : Nat := Nat.pow 2 31 - 1

/-- The written exponent, if it is not beyond `exponentLimit`. -/
def exponentValue? (digits : List Char) : Option Nat :=
  let n := digits.foldl (fun n c => n * 10 + digitValue c) 0
  if n ≤ exponentLimit then some n else none

def clampExponent (e : Int) : Int := max (-Int.pow 2 31) (min e (Int.pow 2 31 - 1))

/-- The double of a number with a significand and a number of places that the
significand stands above the units. -/
def double? (n : Numeral) (significand : Nat) (places : Int) : Option Float :=
  match n.exponent with
  | none => scaled? significand places
  | some (down, digits) =>
    match exponentValue? digits with
    | some e => scaled? significand (clampExponent (if down then places - e else places + e))
    | none => if significand ≠ 0 ∧ ¬ down then none else some 0.0

/-- The value of the number. The integer `-0` is the double minus zero. -/
def value (n : Numeral) : Json :=
  let sign (x : Float) := if n.negative then -x else x
  let real (x? : Option Float) :=
    match x? with
    | some x => float (sign x)
    | none => unreadable
  let (significand, excess) := absorb 0 n.whole
  match n.fraction, n.exponent, excess with
  | none, none, [] =>
    if ¬ n.negative then integer significand
    else if significand ≠ 0 ∧ significand ≤ Nat.pow 2 63 then integer (-significand)
    else real (some significand.toUInt64.toFloat)
  | none, _, _ => real (double? n significand excess.length)
  | some fraction, _, _ =>
    let (all, dropped) := absorb significand fraction
    real (double? n all (excess.length - (fraction.length - dropped.length : Nat)))

end Numeral

def digits (s : List Char) : List Char × List Char :=
  (s.takeWhile Char.isDigit, s.dropWhile Char.isDigit)

/-- Reads the whole part of a number: one zero, or digits without a leading
zero. -/
def readWhole? (s : List Char) : Option (List Char × List Char) :=
  match digits s with
  | ([], _) => none
  | ('0' :: _ :: _, _) => none
  | (ds, rest) => some (ds, rest)

def readFraction? : List Char → Option (Option (List Char) × List Char)
  | '.' :: s =>
    match digits s with
    | ([], _) => none
    | (ds, rest) => some (some ds, rest)
  | s => some (none, s)

def readExponent? (s : List Char) : Option (Option (Bool × List Char) × List Char) :=
  let places (down : Bool) (s : List Char) :=
    match digits s with
    | ([], _) => none
    | (ds, rest) => some (some (down, ds), rest)
  match s with
  | c :: s' =>
    if c == 'e' || c == 'E' then
      match s' with
      | '-' :: r => places true r
      | '+' :: r => places false r
      | r => places false r
    else some (none, s)
  | [] => some (none, s)

def readNumber? (s : List Char) : Option (Json × List Char) := do
  let (negative, s) := match s with
    | '-' :: r => (true, r)
    | r => (false, r)
  let (whole, s) ← readWhole? s
  let (fraction, s) ← readFraction? s
  let (exponent, s) ← readExponent? s
  pure ((Numeral.mk negative whole fraction exponent).value, s)

end TraceExport.Json
