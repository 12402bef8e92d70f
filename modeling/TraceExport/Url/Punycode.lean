/-!
Labels of domain names outside ASCII. A label is written with its ASCII
characters in front and a number for each other character, in digits whose
weights adapt to the numbers already written.
-/

namespace TraceExport.Url.Punycode

def base : Nat := 36

def leastThreshold : Nat := 1

def mostThreshold : Nat := 26

def initialPoint : Nat := 128

def initialBias : Nat := 72

/-- The digits `a` to `z` and then `0` to `9`. -/
def digit (n : Nat) : Char :=
  if n < 26 then Char.ofNat ('a'.toNat + n) else Char.ofNat ('0'.toNat + (n - 26))

def digitValue? (c : Char) : Option Nat :=
  if 'a' ≤ c ∧ c ≤ 'z' then some (c.toNat - 'a'.toNat)
  else if c.isDigit then some (c.toNat - '0'.toNat + 26)
  else none

/-- Brings a number below 456 and counts the steps. -/
def reduce (n steps : Nat) : Nat × Nat :=
  if 455 < n then reduce (n / 35) (steps + base) else (n, steps)
termination_by n
decreasing_by omega

/-- The bias after a number was written; `count` characters are placed then. -/
def adapt (delta count : Nat) (first : Bool) : Nat :=
  let delta := if first then delta / 700 else delta / 2
  let (d, steps) := reduce (delta + delta / count) 0
  steps + 36 * d / (d + 38)

/-- The weight limit of the digit at a place; the places are counted in bases. -/
def threshold (place bias : Nat) : Nat :=
  if place ≤ bias then leastThreshold
  else min (place - bias) mostThreshold

theorem threshold_pos (place bias : Nat) : 0 < threshold place bias := by
  simp only [threshold, leastThreshold, mostThreshold]
  split <;> omega

theorem threshold_lt (place bias : Nat) : threshold place bias < base := by
  simp only [threshold, leastThreshold, mostThreshold, base]
  split <;> omega

def digits (place bias n : Nat) : List Char :=
  let t := threshold place bias
  if n < t then [digit n]
  else digit (t + (n - t) % (base - t)) :: digits (place + base) bias ((n - t) / (base - t))
termination_by n
decreasing_by
  have h := threshold_pos place bias
  have := Nat.div_le_self (n - threshold place bias) (base - threshold place bias)
  omega

/-- The state of a writer: the code point it has come to, the distance since the
last character written, the bias, and the number of characters placed. -/
structure Writer where
  point : Nat
  delta : Nat
  bias : Nat
  placed : Nat
  output : List Char

/-- Passes over one character of the label, writing it if its turn has come. -/
def Writer.pass (w : Writer) (basic : Nat) (c : Nat) : Writer :=
  if c < w.point then { w with delta := w.delta + 1 }
  else if c = w.point then
    { w with
      output := w.output ++ digits base w.bias w.delta
      bias := adapt w.delta (w.placed + 1) (w.placed == basic)
      delta := 0
      placed := w.placed + 1 }
  else w

/-- Writes all places of the next code point of the label. -/
def Writer.round (w : Writer) (basic : Nat) (points : List Nat) (next : Nat) : Writer :=
  let w := { w with delta := w.delta + (next - w.point) * (w.placed + 1), point := next }
  let w := points.foldl (fun w c => w.pass basic c) w
  { w with delta := w.delta + 1, point := w.point + 1 }

/-- The written form of a label, without the mark that it is one. -/
def encode (label : List Char) : List Char :=
  let points := label.map Char.toNat
  let ascii := label.filter (·.toNat < initialPoint)
  let others := ((points.filter (initialPoint ≤ ·)).mergeSort (· ≤ ·)).eraseDups
  let start := if ascii.isEmpty then [] else ascii ++ ['-']
  let w := others.foldl (fun w next => w.round ascii.length points next)
    (Writer.mk initialPoint 0 initialBias ascii.length start)
  w.output

/-- Reads a number: its value, and the digits after it. -/
def readNumber? (bias : Nat) : (place weight value : Nat) → List Char → Option (Nat × List Char)
  | _, _, _, [] => none
  | place, weight, value, c :: s => do
    let d ← digitValue? c
    let t := threshold place bias
    if d < t then pure (value + d * weight, s)
    else readNumber? bias (place + base) (weight * (base - t)) (value + d * weight) s

/-- Inserts the characters that some digits stand for. -/
def insertAll? : (fuel point index bias : Nat) → (placed : List Char) → List Char →
    Option (List Char)
  | _, _, _, _, placed, [] => some placed
  | 0, _, _, _, _, _ => none
  | fuel + 1, point, index, bias, placed, s => do
    let (delta, rest) ← readNumber? bias base 1 0 s
    let count := placed.length + 1
    let total := index + delta
    let next := point + total / count
    if next.isValidChar then
      insertAll? fuel next (total % count + 1) (adapt delta count (point == initialPoint && index == 0))
        (placed.take (total % count) ++ Char.ofNat next :: placed.drop (total % count)) rest
    else none

def decode? (s : List Char) : Option (List Char) :=
  let tail := (s.reverse.takeWhile (· != '-')).reverse
  let front := s.take (s.length - tail.length - 1)
  let (ascii, coded) := if tail.length = s.length then ([], s) else (front, tail)
  insertAll? coded.length initialPoint 0 initialBias ascii coded

end TraceExport.Url.Punycode
