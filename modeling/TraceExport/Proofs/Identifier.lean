import TraceExport.Proofs.Placeholder
import TraceExport.Script.Name

/-!
Names that a script may bind. Whatever a name is derived from, it is made of
ASCII letters, digits and underscores, opens with no digit, and is no reserved
word. Characters of such names are neither blank nor part of the punctuation of
a script, which is what scanning a script rests on.
-/

namespace TraceExport.Text

/-! ### Character classes -/

theorem isUpper_iff {c : Char} : c.isUpper ↔ 65 ≤ c.toNat ∧ c.toNat ≤ 90 := by
  have hrange : c.isUpper = decide (c.val ≥ 65 ∧ c.val ≤ 90) := rfl
  simp [hrange, UInt32.le_iff_toNat_le]

theorem isLower_iff {c : Char} : c.isLower ↔ 97 ≤ c.toNat ∧ c.toNat ≤ 122 := by
  have hrange : c.isLower = (decide (c.val ≥ 97) && decide (c.val ≤ 122)) := rfl
  simp [hrange, UInt32.le_iff_toNat_le]

theorem isAlpha_iff {c : Char} : c.isAlpha ↔
    (65 ≤ c.toNat ∧ c.toNat ≤ 90) ∨ (97 ≤ c.toNat ∧ c.toNat ≤ 122) := by
  have hsplit : c.isAlpha = (c.isUpper || c.isLower) := rfl
  rw [hsplit, Bool.or_eq_true, isUpper_iff, isLower_iff]

theorem isDigit_iff {c : Char} : c.isDigit ↔ 48 ≤ c.toNat ∧ c.toNat ≤ 57 := by
  simp [Char.isDigit, UInt32.le_iff_toNat_le]

theorem isAlphanum_iff {c : Char} : c.isAlphanum ↔
    (65 ≤ c.toNat ∧ c.toNat ≤ 90) ∨ (97 ≤ c.toNat ∧ c.toNat ≤ 122) ∨
      (48 ≤ c.toNat ∧ c.toNat ≤ 57) := by
  rw [Char.isAlphanum, Bool.or_eq_true, isAlpha_iff, isDigit_iff, or_assoc]

theorem eq_iff_toNat {c d : Char} : c = d ↔ c.toNat = d.toNat := Char.toNat_inj.symm

/-- What holds of the first characters, one after another, holds of any of them. -/
theorem of_forall_ofNat {P : Char → Prop} {bound : Nat} (h : ∀ n < bound, P (Char.ofNat n))
    {c : Char} (hc : c.toNat < bound) : P c := by
  have hchar := h c.toNat hc
  rwa [Char.ofNat_toNat] at hchar

theorem isIdentChar_iff {c : Char} : isIdentChar c ↔
    (65 ≤ c.toNat ∧ c.toNat ≤ 90) ∨ (97 ≤ c.toNat ∧ c.toNat ≤ 122) ∨
      (48 ≤ c.toNat ∧ c.toNat ≤ 57) ∨ c.toNat = 95 ∨ c.toNat = 36 := by
  have hclass : isIdentChar c ↔ c.isAlphanum ∨ c = '_' ∨ c = '$' := by
    simp [isIdentChar, or_assoc]
  have hunder : '_'.toNat = 95 := rfl
  have hdollar : '$'.toNat = 36 := rfl
  rw [hclass, isAlphanum_iff, eq_iff_toNat, eq_iff_toNat, hunder, hdollar]
  simp only [or_assoc]

theorem isBlank_of_isIdentChar {c : Char} (h : isIdentChar c) : isBlank c = false := by
  rw [isIdentChar_iff] at h
  simp only [isBlank, Bool.or_eq_false_iff, Bool.and_eq_false_iff, decide_eq_false_iff_not,
    beq_eq_false_iff_ne]
  omega

theorem toNat_toLower (c : Char) :
    c.toLower.toNat = if 65 ≤ c.toNat ∧ c.toNat ≤ 90 then c.toNat + 32 else c.toNat := by
  unfold Char.toLower
  split
  · rename_i h
    have hrange : 65 ≤ c.toNat ∧ c.toNat ≤ 90 := by simpa [UInt32.le_iff_toNat_le] using h
    have hadd : (c.val + 32).toNat = (c.toNat + 32) % 2 ^ 32 := by
      rw [UInt32.toNat_add]
      rfl
    rw [if_pos hrange]
    change (c.val + 32).toNat = c.toNat + 32
    omega
  · rename_i h
    rw [if_neg (by simpa [UInt32.le_iff_toNat_le] using h)]

theorem toLower_not_upper (c : Char) : ¬ (65 ≤ c.toLower.toNat ∧ c.toLower.toNat ≤ 90) := by
  rw [toNat_toLower]
  split <;> omega

theorem ne_of_isIdentChar {c d : Char} (h : isIdentChar c) (hd : isIdentChar d = false) :
    c ≠ d := by
  rintro rfl
  simp [h] at hd

end TraceExport.Text

namespace TraceExport.Script

open Text

/-! ### The shape of names -/

/-- A name that a script may bind. -/
structure IsBindable (name : String) : Prop where
  opens : ∃ c s, name.toList = c :: s ∧ (c.isAlpha ∨ c = '_')
  letters : ∀ c ∈ name.toList, c.isAlphanum ∨ c = '_'
  free : isReserved name = false

namespace IsBindable

variable {name : String}

theorem ne_nil (h : IsBindable name) : name.toList ≠ [] := by
  obtain ⟨c, s, hname, -⟩ := h.opens
  simp [hname]

theorem isIdentChar_of_mem (h : IsBindable name) : ∀ c ∈ name.toList, isIdentChar c := by
  intro c hc
  rcases h.letters c hc with hletter | rfl
  · simp [isIdentChar, hletter]
  · rfl

theorem isIdentStart_head (h : IsBindable name) :
    ∃ c s, name.toList = c :: s ∧ isIdentStart c := by
  obtain ⟨c, s, hname, hletter | rfl⟩ := h.opens
  · exact ⟨c, s, hname, by simp [isIdentStart, hletter]⟩
  · exact ⟨_, s, hname, rfl⟩

theorem not_mem_reservedWords (h : IsBindable name) : name ∉ reservedWords := by
  simpa [isReserved] using h.free

theorem toList_ne_of_reserved (h : IsBindable name) {word : String} (hword : word ∈ reservedWords) :
    name.toList ≠ word.toList := by
  intro heq
  exact h.not_mem_reservedWords (String.toList_inj.1 heq ▸ hword)

end IsBindable

/-- A suffix that no reserved word has makes any name free. -/
theorem isReserved_append {suffix : String}
    (h : ∀ word ∈ reservedWords, ¬ suffix.toList <:+ word.toList) (name : String) :
    isReserved (name ++ suffix) = false := by
  apply Bool.eq_false_iff.2
  intro hres
  have hmem : name ++ suffix ∈ reservedWords := by simpa [isReserved] using hres
  exact h _ hmem (by simp [String.toList_append])

/-- A name gets an underscore where it would not be free without it. -/
theorem isBindable_underscore {name : String} {taken : Prop} [Decidable taken]
    (hopens : ∃ c s, name.toList = c :: s ∧ (c.isAlpha ∨ c = '_'))
    (hletters : ∀ c ∈ name.toList, c.isAlphanum ∨ c = '_')
    (hfree : ¬ taken → isReserved name = false) :
    IsBindable (if taken then name ++ "_" else name) := by
  split
  · obtain ⟨c, s, hname, hc⟩ := hopens
    refine ⟨⟨c, s ++ ['_'], by simp [hname], hc⟩, ?_, isReserved_append (by decide) name⟩
    intro d hd
    rw [String.toList_append, List.mem_append] at hd
    rcases hd with hd | hd
    · exact hletters d hd
    · exact .inr (by simpa using hd)
  · rename_i htaken
    exact ⟨hopens, hletters, hfree htaken⟩

theorem identifier_eq_or (s : List Char) (fallback : String) :
    identifier s fallback = fallback ∨ IsBindable (identifier s fallback) := by
  unfold identifier
  have hall : ∀ d ∈ s.filter Char.isAlphanum, d.isAlphanum := fun d hd => (List.mem_filter.1 hd).2
  cases hs : s.filter Char.isAlphanum with
  | nil => exact .inl rfl
  | cons c rest =>
      rw [hs] at hall
      right
      refine isBindable_underscore ?_ ?_ fun hfree => by simpa using hfree
      · by_cases hc : c.isDigit
        · exact ⟨'t', "ext".toList ++ c :: rest, by simp [hc], .inl rfl⟩
        · have hletter : c.isAlpha := by
            simpa [Char.isAlphanum, hc] using hall c List.mem_cons_self
          exact ⟨c, rest, by simp [hc], .inl hletter⟩
      · -- A digit at the start is put behind the word `text`.
        have htext : ∀ d ∈ "text".toList, d.isAlphanum := by simp
        intro d hd
        left
        split at hd
        · rcases List.mem_append.1 (String.toList_append ▸ hd) with hd | hd
          · exact htext d hd
          · exact hall d (by simpa using hd)
        · rw [String.toList_ofList] at hd
          exact hall d hd

theorem isBindable_identifier (s : List Char) {fallback : String} (h : IsBindable fallback) :
    IsBindable (identifier s fallback) := by
  rcases identifier_eq_or s fallback with heq | hbind
  · rwa [heq]
  · exact hbind

theorem isBindable_textName (text : String) : IsBindable (textName text) :=
  isBindable_identifier _ ⟨⟨'t', "ext".toList, rfl, .inl rfl⟩, by simp, by decide⟩

theorem isBindable_elementName (f : Trace.Fingerprint) : IsBindable (elementName f) := by
  unfold elementName
  cases hfind : ((elementDescriptions f).map fun s => identifier s "").find? (· != "") with
  | none => exact ⟨⟨'e', "lement".toList, rfl, .inl rfl⟩, by simp, by decide⟩
  | some name =>
      have hne : name ≠ "" := by simpa using List.find?_some hfind
      obtain ⟨s, -, rfl⟩ := List.mem_map.1 (List.mem_of_find?_eq_some hfind)
      exact (identifier_eq_or s "").resolve_left hne

theorem isBindable_variablesName (vars : List String) : IsBindable (variablesName vars) := by
  unfold variablesName
  have hvalue : IsBindable "value" := ⟨⟨'v', "alue".toList, rfl, .inl rfl⟩, by simp, by decide⟩
  obtain ⟨⟨c, s, hname, hc⟩, hletters, -⟩ := isBindable_identifier
    (camelCase (lower (join [' '] (vars.map String.toList)))) hvalue
  have htext : ∀ d ∈ "Text".toList, d.isAlphanum := by simp
  refine ⟨⟨c, s ++ "Text".toList, by simp [hname], hc⟩, ?_, isReserved_append (by decide) _⟩
  intro d hd
  rw [String.toList_append, List.mem_append] at hd
  rcases hd with hd | hd
  · exact hletters d hd
  · exact .inl (htext d hd)

/-! ### Bindings of variables -/

open Spec (Placeholder.isNameChar Placeholder.IsVariable)

theorem isNameChar_iff {c : Char} : Placeholder.isNameChar c ↔
    (65 ≤ c.toNat ∧ c.toNat ≤ 90) ∨ (48 ≤ c.toNat ∧ c.toNat ≤ 57) ∨ c = '_' := by
  have hclass : Placeholder.isNameChar c ↔ c.isUpper ∨ c.isDigit ∨ c = '_' := by
    simp [Placeholder.isNameChar, or_assoc]
  rw [hclass, isUpper_iff, isDigit_iff]

theorem isIdentChar_of_isNameChar {c : Char} (h : Placeholder.isNameChar c) : isIdentChar c := by
  rw [isIdentChar_iff]
  rcases isNameChar_iff.1 h with hupper | hdigit | rfl
  · exact .inl hupper
  · exact .inr (.inr (.inl hdigit))
  · decide

theorem toLower_isNameChar {c : Char} (h : Placeholder.isNameChar c) :
    c.toLower.isAlpha ∨ c.toLower.isDigit ∨ c.toLower = '_' := by
  rw [isAlpha_iff, isDigit_iff, toNat_toLower]
  rcases isNameChar_iff.1 h with hupper | hdigit | rfl
  · left
    rw [if_pos hupper]
    omega
  · right; left
    rw [if_neg (by omega)]
    omega
  · exact .inr (.inr rfl)

theorem isBindable_variableName {var : String} (h : Spec.Placeholder.isName var) :
    IsBindable (variableName var) := by
  unfold variableName
  split
  · exact ⟨⟨'b', "aseUrl".toList, rfl, .inl rfl⟩, by simp, by decide⟩
  split
  · exact ⟨⟨'l', "oginBaseUrl".toList, rfl, .inl rfl⟩, by simp, by decide⟩
  obtain ⟨hne, hname⟩ := Spec.Placeholder.isName_iff.1 h
  obtain ⟨c, s, hvar⟩ := List.exists_cons_of_ne_nil hne
  rw [hvar] at hname
  have hlower : ∀ d ∈ (c :: s).map Char.toLower, d.isAlphanum ∨ d = '_' := by
    intro d hd
    obtain ⟨e, he, rfl⟩ := List.mem_map.1 hd
    rcases toLower_isNameChar (hname e he) with halpha | hdigit | hunder
    · exact .inl (by simp [Char.isAlphanum, halpha])
    · exact .inl (by simp [Char.isAlphanum, hdigit])
    · exact .inr hunder
  simp only [hvar, List.map_cons] at hlower ⊢
  refine isBindable_underscore ?_ ?_ fun hfree => ?_
  · by_cases hdigit : c.toLower.isDigit
    · exact ⟨'_', c.toLower :: s.map Char.toLower, by simp [hdigit], .inr rfl⟩
    · refine ⟨c.toLower, s.map Char.toLower, by simp [hdigit], ?_⟩
      rcases toLower_isNameChar (hname c List.mem_cons_self) with halpha | hdig | hunder
      · exact .inl halpha
      · exact absurd hdig hdigit
      · exact .inr hunder
  · intro d hd
    split at hd
    · rw [String.toList_ofList] at hd
      rcases List.mem_cons.1 hd with rfl | hd
      · exact .inr rfl
      · exact hlower d hd
    · rw [String.toList_ofList] at hd
      exact hlower d hd
  · rw [Bool.or_eq_true, not_or] at hfree
    simpa using hfree.1

/-- Other variables than the two addresses stay clear of the file's own names. -/
theorem variableName_not_mem_fileBindings {var : String}
    (h : Spec.Placeholder.isAddress var = false) : variableName var ∉ fileBindings := by
  obtain ⟨hbase, hlogin⟩ : var ≠ Spec.Placeholder.baseUrl ∧ var ≠ Spec.Placeholder.loginBaseUrl := by
    simpa [Spec.Placeholder.isAddress] using h
  have hsuffix : ∀ word ∈ fileBindings, ¬ "_".toList <:+ word.toList := by decide
  have hclear : ∀ name : String,
      (if isReserved name || isFileBinding name then name ++ "_" else name) ∉ fileBindings := by
    intro name
    split
    · exact fun hmem => hsuffix _ hmem (by simp [String.toList_append])
    · rename_i htaken
      rw [Bool.or_eq_true, not_or] at htaken
      simpa [isFileBinding] using htaken.2
  unfold variableName
  rw [if_neg hbase, if_neg hlogin]
  exact hclear _

/-- The bindings of variables have no capital letter that the names made from
variables end in. -/
theorem capital_not_mem_variableName (var : String) : 'T' ∉ (variableName var).toList := by
  unfold variableName
  split
  · decide
  split
  · decide
  have hlower : ∀ s : List Char, 'T' ∉ s.map Char.toLower := by
    intro s hmem
    obtain ⟨c, -, hc⟩ := List.mem_map.1 hmem
    exact toLower_not_upper c (by rw [hc]; decide)
  have hname := hlower var.toList
  have happend : ∀ {name : String} {taken : Prop} [Decidable taken], 'T' ∉ name.toList →
      'T' ∉ (if taken then name ++ "_" else name).toList := by
    intro name taken _ h
    split <;> simp [h]
  apply happend
  cases hvar : var.toList.map Char.toLower with
  | nil => simp
  | cons c s =>
      rw [hvar] at hname
      simp only
      split
      · simpa using hname
      · simpa using hname

theorem variablesName_ne_variableName (vars : List String) (var : String) :
    variablesName vars ≠ variableName var := by
  intro h
  apply capital_not_mem_variableName var
  rw [← h]
  simp [variablesName]

end TraceExport.Script
