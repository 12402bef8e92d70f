import TraceExport.Text.Utf8
import Mathlib.Data.List.Basic

/-!
UTF-8 read as it was written. Each character is written in bytes that are read as this
character, whatever follows them (`read_encodeChar`), so that a text is read again from its
bytes, by a strict reader and by a lenient one.
-/

namespace TraceExport.Text.Utf8

theorem toNat_byte {n : Nat} (h : n < 256) : (UInt8.ofNat n).toNat = n := by
  rw [UInt8.toNat_ofNat']
  exact Nat.mod_eq_of_lt h

/-- A byte in its range goes on with a character. -/
theorem readRest_cons {range : Nat × Nat} {b : Nat} (hfirst : range.1 ≤ b) (hlast : b ≤ range.2)
    (hbyte : b < 256) (value n : Nat) (bytes : List UInt8) :
    readRest range value (n + 1) (UInt8.ofNat b :: bytes) =
      readRest (0x80, 0xBF) (value * 64 + b % 64) n bytes := by
  rw [readRest, toNat_byte hbyte, if_pos ⟨hfirst, hlast⟩]

theorem read_ofNat {b n : Nat} (hbyte : b < 256) (h : following? b = some n)
    (bytes : List UInt8) :
    read (UInt8.ofNat b) bytes = readRest (secondRange b) (leadingBits b n) n bytes := by
  simp only [read, toNat_byte hbyte, h]

theorem toNat_bounds (c : Char) :
    c.toNat < 0x110000 ∧ ¬ (0xD800 ≤ c.toNat ∧ c.toNat < 0xE000) := by
  have hvalid := c.valid
  have hsame : c.val.toNat = c.toNat := rfl
  simp only [UInt32.isValidChar, Nat.isValidChar] at hvalid
  omega

/-! ### Code points by the number of their bytes

The first byte says how many follow. Only the second is bound to a range of its own, and the bounds
of a character are what puts it there. -/

section

variable {v : Nat} (rest : List UInt8)

theorem read_one (hlast : v < 0x80) : read (UInt8.ofNat v) rest = (some (Char.ofNat v), rest) := by
  have hlead : following? v = some 0 := if_pos hlast
  rw [read_ofNat (by omega) hlead, readRest]
  rfl

theorem read_two (hfirst : 0x80 ≤ v) (hlast : v < 0x800) :
    read (UInt8.ofNat (v / 64 % 32 + 192)) (UInt8.ofNat (v % 64 + 128) :: rest) =
      (some (Char.ofNat v), rest) := by
  have hlead : following? (v / 64 % 32 + 192) = some 1 := by
    rw [following?, if_neg (by omega), if_pos (by omega)]
  have hrange : secondRange (v / 64 % 32 + 192) = (0x80, 0xBF) := by
    rw [secondRange, if_neg (by omega), if_neg (by omega), if_neg (by omega), if_neg (by omega)]
  have hvalue : leadingBits (v / 64 % 32 + 192) 1 * 64 + (v % 64 + 128) % 64 = v := by
    simp only [leadingBits]
    omega
  rw [read_ofNat (by omega) hlead, hrange, readRest_cons (by omega) (by omega) (by omega), readRest,
    hvalue]

/-- The second of three bytes. Two ranges are cut short, for numbers that fewer bytes hold and for
surrogates. -/
theorem secondRange_three (hfirst : 0x800 ≤ v) (hlast : v < 0x10000)
    (hsurrogate : ¬ (0xD800 ≤ v ∧ v < 0xE000)) :
    (secondRange (v / 4096 % 16 + 224)).1 ≤ v / 64 % 64 + 128 ∧
      v / 64 % 64 + 128 ≤ (secondRange (v / 4096 % 16 + 224)).2 := by
  unfold secondRange
  split
  · exact ⟨by omega, by omega⟩
  split
  · exact ⟨by omega, by omega⟩
  · rw [if_neg (by omega), if_neg (by omega)]
    exact ⟨by omega, by omega⟩

theorem read_three (hfirst : 0x800 ≤ v) (hlast : v < 0x10000)
    (hsurrogate : ¬ (0xD800 ≤ v ∧ v < 0xE000)) :
    read (UInt8.ofNat (v / 4096 % 16 + 224))
        (UInt8.ofNat (v / 64 % 64 + 128) :: UInt8.ofNat (v % 64 + 128) :: rest) =
      (some (Char.ofNat v), rest) := by
  have hlead : following? (v / 4096 % 16 + 224) = some 2 := by
    rw [following?, if_neg (by omega), if_neg (by omega), if_pos (by omega)]
  obtain ⟨hlower, hupper⟩ := secondRange_three hfirst hlast hsurrogate
  have hvalue : (leadingBits (v / 4096 % 16 + 224) 2 * 64 + (v / 64 % 64 + 128) % 64) * 64 +
      (v % 64 + 128) % 64 = v := by
    simp only [leadingBits]
    omega
  rw [read_ofNat (by omega) hlead, readRest_cons hlower hupper (by omega),
    readRest_cons (by omega) (by omega) (by omega), readRest, hvalue]

/-- The second of four bytes. Two ranges are cut short, for numbers that fewer bytes hold and for
those above all characters. -/
theorem secondRange_four (hfirst : 0x10000 ≤ v) (hlast : v < 0x110000) :
    (secondRange (v / 262144 % 8 + 240)).1 ≤ v / 4096 % 64 + 128 ∧
      v / 4096 % 64 + 128 ≤ (secondRange (v / 262144 % 8 + 240)).2 := by
  unfold secondRange
  rw [if_neg (by omega), if_neg (by omega)]
  split
  · exact ⟨by omega, by omega⟩
  split
  · exact ⟨by omega, by omega⟩
  · exact ⟨by omega, by omega⟩

theorem read_four (hfirst : 0x10000 ≤ v) (hlast : v < 0x110000) :
    read (UInt8.ofNat (v / 262144 % 8 + 240))
        (UInt8.ofNat (v / 4096 % 64 + 128) :: UInt8.ofNat (v / 64 % 64 + 128) ::
          UInt8.ofNat (v % 64 + 128) :: rest) =
      (some (Char.ofNat v), rest) := by
  have hlead : following? (v / 262144 % 8 + 240) = some 3 := by
    rw [following?, if_neg (by omega), if_neg (by omega), if_neg (by omega), if_pos (by omega)]
  obtain ⟨hlower, hupper⟩ := secondRange_four hfirst hlast
  have hvalue : ((leadingBits (v / 262144 % 8 + 240) 3 * 64 + (v / 4096 % 64 + 128) % 64) * 64 +
      (v / 64 % 64 + 128) % 64) * 64 + (v % 64 + 128) % 64 = v := by
    simp only [leadingBits]
    omega
  rw [read_ofNat (by omega) hlead, readRest_cons hlower hupper (by omega),
    readRest_cons (by omega) (by omega) (by omega), readRest_cons (by omega) (by omega) (by omega),
    readRest, hvalue]

end

/-! ### Texts -/

/-- A character is read from the bytes that it is written in. -/
theorem read_encodeChar (c : Char) (rest : List UInt8) : ∃ b bytes,
    String.utf8EncodeChar c = b :: bytes ∧ read b (bytes ++ rest) = (some c, rest) := by
  obtain ⟨hlast, hsurrogate⟩ := toNat_bounds c
  have hval : c.val.toNat = c.toNat := rfl
  have hchar : (some c, rest) = (some (Char.ofNat c.toNat), rest) := by rw [Char.ofNat_toNat]
  rw [hchar]
  unfold String.utf8EncodeChar
  simp only [hval]
  split
  · exact ⟨_, _, rfl, read_one rest (by omega)⟩
  split
  · exact ⟨_, _, rfl, read_two rest (by omega) (by omega)⟩
  split
  · exact ⟨_, _, rfl, read_three rest (by omega) (by omega) hsurrogate⟩
  · exact ⟨_, _, rfl, read_four rest (by omega) hlast⟩

theorem characters_encode (s : List Char) : characters (encode s) = s.map some := by
  induction s with
  | nil => simp [encode, characters]
  | cons c s ih =>
      obtain ⟨b, bytes, hbytes, hread⟩ := read_encodeChar c (encode s)
      have hcons : encode (c :: s) = b :: (bytes ++ encode s) := by simp [encode, hbytes]
      rw [hcons, characters, hread, ih]
      rfl

theorem decode?_encode (s : List Char) : decode? (encode s) = some s := by
  rw [decode?, characters_encode]
  induction s with
  | nil => rfl
  | cons c s ih =>
      rw [List.map_cons, List.mapM_cons, ih]
      rfl

theorem decodeLossy_encode (s : List Char) : decodeLossy (encode s) = s := by
  rw [decodeLossy, characters_encode, List.map_map]
  exact List.map_id s

end TraceExport.Text.Utf8
