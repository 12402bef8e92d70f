/-!
Texts as bytes. Bytes that are no UTF-8 fall into stretches, each the longest
start of a character that goes wrong; a lenient reader puts one replacement
character in the place of each.
-/

namespace TraceExport.Text.Utf8

def encode (s : List Char) : List UInt8 := s.flatMap String.utf8EncodeChar

def following? (b : Nat) : Option Nat :=
  if b < 0x80 then some 0
  else if 0xC2 ≤ b ∧ b ≤ 0xDF then some 1
  else if 0xE0 ≤ b ∧ b ≤ 0xEF then some 2
  else if 0xF0 ≤ b ∧ b ≤ 0xF4 then some 3
  else none

def secondRange (b : Nat) : Nat × Nat :=
  if b = 0xE0 then (0xA0, 0xBF)
  else if b = 0xED then (0x80, 0x9F)
  else if b = 0xF0 then (0x90, 0xBF)
  else if b = 0xF4 then (0x80, 0x8F)
  else (0x80, 0xBF)

/-- The bits of a first byte that belong to its character. -/
def leadingBits (b : Nat) (following : Nat) : Nat :=
  match following with
  | 0 => b
  | 1 => b % 32
  | 2 => b % 16
  | _ => b % 8

/-- Reads the last `n` bytes of a character, the next of them in a range. -/
def readRest (range : Nat × Nat) (value : Nat) : Nat → List UInt8 → Option Char × List UInt8
  | 0, bytes => (some (Char.ofNat value), bytes)
  | _ + 1, [] => (none, [])
  | n + 1, b :: bytes =>
    if range.1 ≤ b.toNat ∧ b.toNat ≤ range.2 then
      readRest (0x80, 0xBF) (value * 64 + b.toNat % 64) n bytes
    else (none, b :: bytes)

/-- Reads a character or passes over a stretch that is none. -/
def read (b : UInt8) (bytes : List UInt8) : Option Char × List UInt8 :=
  match following? b.toNat with
  | some n => readRest (secondRange b.toNat) (leadingBits b.toNat n) n bytes
  | none => (none, bytes)

theorem length_readRest_le (range : Nat × Nat) (value n : Nat) (bytes : List UInt8) :
    (readRest range value n bytes).2.length ≤ bytes.length := by
  induction n generalizing range value bytes with
  | zero => simp [readRest]
  | succ n ih =>
      cases bytes with
      | nil => simp [readRest]
      | cons b bytes =>
          simp only [readRest]
          split
          · exact Nat.le_succ_of_le (ih ..)
          · simp

theorem length_read_le (b : UInt8) (bytes : List UInt8) :
    (read b bytes).2.length ≤ bytes.length := by
  unfold read
  split
  · exact length_readRest_le ..
  · simp

/-- The characters of some bytes, with `none` for each stretch that is no UTF-8. -/
def characters (bytes : List UInt8) : List (Option Char) :=
  match bytes with
  | [] => []
  | b :: bytes =>
    have := length_read_le b bytes
    (read b bytes).1 :: characters (read b bytes).2
termination_by bytes.length

def decode? (bytes : List UInt8) : Option (List Char) := (characters bytes).mapM id

def decodeLossy (bytes : List UInt8) : List Char := (characters bytes).map (·.getD '\ufffd')

end TraceExport.Text.Utf8
