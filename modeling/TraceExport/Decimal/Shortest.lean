/-!
The shortest decimal that reads back as a given double. A finite double is
`m * 2 ^ q`, and every real of an interval around it is read back as it. Grids
of one, two, … significant digits are tried until one of them has a point in
that interval; of two such points the nearer one is taken.
-/

namespace TraceExport

/-- The decimal `digits * 10 ^ exponent`. -/
structure Decimal where
  digits : Nat
  exponent : Int
deriving DecidableEq, Repr

namespace Decimal

/-- A fraction of natural numbers, its denominator positive. -/
structure Ratio where
  num : Nat
  den : Nat

def Ratio.power (n base : Nat) (e : Int) : Ratio :=
  if e < 0 then ⟨n, base.pow e.natAbs⟩ else ⟨n * base.pow e.natAbs, 1⟩

def Ratio.le (a b : Ratio) : Bool := a.num * b.den ≤ b.num * a.den

def Ratio.lt (a b : Ratio) : Bool := a.num * b.den < b.num * a.den

def Ratio.quarter (a : Ratio) : Ratio := ⟨a.num, 4 * a.den⟩

/-- The reals that are read as one double, and whether the two ends are. -/
structure Interval where
  low : Ratio
  middle : Ratio
  high : Ratio
  closed : Bool

def Interval.contains (i : Interval) (x : Ratio) : Bool :=
  if i.closed then i.low.le x && x.le i.high else i.low.lt x && x.lt i.high

/-- The interval of `m * 2 ^ q`. Below a power of two the doubles lie twice as
close, except at the bottom of the range. -/
def Interval.ofDouble (m : Nat) (q : Int) : Interval :=
  let below := if m = Nat.pow 2 52 ∧ q > -1074 then 4 * m - 1 else 4 * m - 2
  { low := (Ratio.power below 2 q).quarter
    middle := Ratio.power m 2 q
    high := (Ratio.power (4 * m + 2) 2 q).quarter
    closed := m % 2 = 0 }

/-- The number of decimal digits of the whole part, if there is one, and
otherwise minus the number of zeros after the point. -/
def magnitude (x : Ratio) : Int :=
  if x.den ≤ x.num then ((Nat.toDigits 10 (x.num / x.den)).length : Int)
  else 1 - ((Nat.toDigits 10 ((x.den - 1) / x.num)).length : Int)

/-- The point of the grid `10 ^ exponent` that stands for the interval. -/
def gridPoint? (i : Interval) (exponent : Int) : Option Decimal :=
  let unit := Ratio.power 1 10 exponent
  let floor := i.middle.num * unit.den / (i.middle.den * unit.num)
  let point (n : Nat) : Ratio := ⟨n * unit.num, unit.den⟩
  match i.contains (point floor), i.contains (point (floor + 1)) with
  | true, false => some ⟨floor, exponent⟩
  | false, true => some ⟨floor + 1, exponent⟩
  | false, false => none
  | true, true =>
    let halfway : Ratio := ⟨(2 * floor + 1) * unit.num, 2 * unit.den⟩
    if i.middle.lt halfway then some ⟨floor, exponent⟩
    else if halfway.lt i.middle then some ⟨floor + 1, exponent⟩
    else some ⟨if floor % 2 = 0 then floor else floor + 1, exponent⟩

/-- The shortest decimal of the positive double `m * 2 ^ q`. Seventeen digits
always suffice. -/
def shortest (m : Nat) (q : Int) : Decimal :=
  let i := Interval.ofDouble m q
  let top := magnitude i.middle
  ((List.range 17).findSome? fun (n : Nat) => gridPoint? i (top - (n + 1 : Nat))).getD ⟨0, 0⟩

def stripped (d : Decimal) : Decimal :=
  let ds := Nat.toDigits 10 d.digits
  let zeros := (ds.reverse.takeWhile (· == '0')).length
  if d.digits = 0 then ⟨0, 0⟩ else ⟨d.digits / Nat.pow 10 zeros, d.exponent + zeros⟩

end Decimal

end TraceExport
