import TraceExport.Proofs.Host
import TraceExport.Proofs.Utf8
import TraceExport.Url.Redaction

/-!
Forms as they are written. Neither a name nor a value is written with a character that parts it
from the next, and what it is escaped with is taken back; so the entries of a form are read as they
were written (`formPairs_writePairs`), in a query without change.
-/

namespace TraceExport.Url

open Text

/-! ### Escaped text -/

theorem hexValue?_upperHexDigit : ∀ n < 16, hexValue? (upperHexDigit n) = some n := by decide

theorem unescape_escapeByte (b : UInt8) (s : List Char) :
    unescape (escapeByte b ++ s) = b :: unescape s := by
  have hlt : b.toNat < 256 := b.toNat_lt
  have hvalue : 16 * (b.toNat / 16) + b.toNat % 16 = b.toNat := Nat.div_add_mod _ _
  rw [escapeByte, List.cons_append, List.cons_append, List.cons_append, List.nil_append, unescape,
    hexValue?_upperHexDigit _ (by omega), hexValue?_upperHexDigit _ (by omega)]
  simp only [hvalue, UInt8.ofNat_toNat]

theorem unescape_flatMap_escapeByte (bytes : List UInt8) (s : List Char) :
    unescape (bytes.flatMap escapeByte ++ s) = bytes ++ unescape s := by
  induction bytes with
  | nil => rfl
  | cons b bytes ih =>
      rw [List.flatMap_cons, List.append_assoc, unescape_escapeByte, ih, List.cons_append]

theorem unescape_cons {c : Char} (h : c ≠ '%') (s : List Char) :
    unescape (c :: s) = String.utf8EncodeChar c ++ unescape s := by
  rw [unescape]
  exact fun _ _ _ heq _ => h heq

/-! ### Names and values -/

/-- A character that parts names and values, or that a query has to escape. -/
def isOutsideForm (c : Char) : Bool := c == '&' || c == '=' || isEscapedInSpecialQuery c

theorem of_isFormChar {c : Char} (h : isFormChar c) :
    isOutsideForm c = false ∧ c ≠ '+' ∧ c ≠ '%' := by
  have hlt : c.toNat < 128 := by
    rw [isFormChar, Bool.or_eq_true, isAlphanum_iff, List.contains_iff_mem] at h
    rcases h with halphanum | hmark
    · omega
    · simp at hmark
      rcases hmark with rfl | rfl | rfl | rfl <;> decide
  exact of_forall_ofNat
    (P := fun c => isFormChar c → isOutsideForm c = false ∧ c ≠ '+' ∧ c ≠ '%') (by decide) hlt h

theorem formEscape_cons (c : Char) (s : List Char) : formEscape (c :: s) =
    (if c == ' ' then ['+'] else escape (!isFormChar ·) [c]) ++ formEscape s :=
  List.flatMap_cons

theorem isOutsideForm_formEscape (s : List Char) :
    ∀ c ∈ formEscape s, isOutsideForm c = false := by
  intro c hc
  obtain ⟨d, -, hd⟩ := List.mem_flatMap.1 hc
  split at hd
  · rw [List.mem_singleton.1 hd]
    rfl
  · refine forall_mem_escape ⟨rfl, by decide⟩ (fun e _ he => ?_) c hd
    exact (of_isFormChar (by simpa using he)).1

/-- A plus stands for a space. -/
def spaced (c : Char) : Char := if c == '+' then ' ' else c

theorem map_spaced_escapeByte (b : UInt8) : (escapeByte b).map spaced = escapeByte b := by
  have hlt : b.toNat < 256 := b.toNat_lt
  have hdigit : ∀ n < 16, spaced (upperHexDigit n) = upperHexDigit n := by decide
  simp only [escapeByte, List.map_cons, List.map_nil, hdigit _ (by omega : b.toNat / 16 < 16),
    hdigit _ (by omega : b.toNat % 16 < 16)]
  rfl

theorem unescape_formEscape (s : List Char) :
    unescape ((formEscape s).map spaced) = Utf8.encode s := by
  induction s with
  | nil => rfl
  | cons c s ih =>
      rw [formEscape_cons, List.map_append]
      -- A plus that was a plus has been escaped, so every plus that is left was a space.
      split
      · rename_i hblank
        rw [beq_iff_eq.1 hblank, List.map_singleton, List.singleton_append,
          unescape_cons (by decide), ih]
        rfl
      · by_cases hform : isFormChar c
        · obtain ⟨-, hplus, hpercent⟩ := of_isFormChar hform
          have hkept : escape (!isFormChar ·) [c] = [c] := escape_eq_self (by simpa using hform)
          have hspaced : spaced c = c := if_neg (by simpa using hplus)
          rw [hkept, List.map_singleton, hspaced, List.singleton_append, unescape_cons hpercent, ih]
          rfl
        · have hescaped : escape (!isFormChar ·) [c] =
              (String.utf8EncodeChar c).flatMap escapeByte := by
            simp [escape, hform]
          rw [hescaped, List.map_flatMap]
          simp only [map_spaced_escapeByte]
          rw [unescape_flatMap_escapeByte, ih]
          rfl

/-- A name or a value is read as it was written. -/
theorem formText_formEscape (s : List Char) : formText (formEscape s) = s := by
  have htext := congrArg Utf8.decodeLossy (unescape_formEscape s)
  rw [Utf8.decodeLossy_encode] at htext
  exact htext

/-! ### Entries -/

def writePair (p : Pair) : List Char := formEscape p.1 ++ '=' :: formEscape p.2

theorem cutAt_writePair (p : Pair) :
    cutAt '=' (writePair p) = (formEscape p.1, some (formEscape p.2)) :=
  cutAt_mark (not_mem_of_escaped (isOutsideForm_formEscape p.1) rfl) _

theorem forall_mem_writePair {p : Char → Prop} (hform : ∀ c, isOutsideForm c = false → p c)
    (hmark : p '=') (pair : Pair) : ∀ c ∈ writePair pair, p c :=
  List.forall_mem_append.2 ⟨fun c hc => hform c (isOutsideForm_formEscape _ c hc),
    List.forall_mem_cons.2 ⟨hmark, fun c hc => hform c (isOutsideForm_formEscape _ c hc)⟩⟩

theorem splitOn_writePairs {pairs : List Pair} (hne : pairs ≠ []) :
    splitOn (· == '&') (writePairs pairs) = pairs.map writePair := by
  refine splitOn_join rfl (by simpa using hne) fun piece hpiece => ?_
  obtain ⟨p, -, rfl⟩ := List.mem_map.1 hpiece
  refine forall_mem_writePair (fun c hc => ?_) (by decide) p
  simp only [isOutsideForm, Bool.or_eq_false_iff] at hc
  exact hc.1.1

/-- The entries of a form are read as they were written. -/
theorem formPairs_writePairs (pairs : List Pair) : formPairs (writePairs pairs) = pairs := by
  by_cases hne : pairs = []
  · subst hne
    rfl
  · have hkept : (pairs.map writePair).filter (!·.isEmpty) = pairs.map writePair := by
      refine List.filter_eq_self.2 fun piece hpiece => ?_
      obtain ⟨p, -, rfl⟩ := List.mem_map.1 hpiece
      simp [writePair]
    rw [formPairs, splitOn_writePairs hne, hkept, List.map_map]
    simp [Function.comp_def, cutAt_writePair, formText_formEscape]

/-- A form stands in a query as it is written. -/
theorem isEscapedInSpecialQuery_writePairs (pairs : List Pair) :
    ∀ c ∈ writePairs pairs, isEscapedInSpecialQuery c = false := by
  refine forall_mem_join (List.forall_mem_singleton.2 (by decide)) fun piece hpiece => ?_
  obtain ⟨p, -, rfl⟩ := List.mem_map.1 hpiece
  refine forall_mem_writePair (fun c hc => ?_) (by decide) p
  simp only [isOutsideForm, Bool.or_eq_false_iff] at hc
  exact hc.2

end TraceExport.Url
