import TraceExport.Proofs.Line

/-!
Renaming a declaration together with its uses. The code of a declaration is one
line, which binds a name to a value, and further text in which the name stands at
certain places. Renaming it gives the same code with the new name just in case
the old one is found nowhere else: not as a word of the value, which must not
leave a quotation mark open either, and not as a word of the text between the
uses (`renameFrom_declaring_iff`).

The new name is longer than the old one. So whatever is renamed besides shows in
the length of the code, and where a quotation mark hides the uses it shows in the
last one.
-/

namespace TraceExport.Script

open Text Lexeme

/-! ### Uses of a name -/

/-- Text that may stand beside a word: plain text that neither begins nor ends in
a word, and that closes no literal. -/
def IsSpacer (p : List Char) : Prop :=
  IsPlain p ∧ '\\' ∉ p ∧ p.head?.any (!isIdentChar ·) ∧ p.getLast?.any (!isIdentChar ·)

instance (p : List Char) : Decidable (IsSpacer p) := by unfold IsSpacer; infer_instance

namespace IsSpacer

variable {p : List Char}

theorem endsWord_head? (h : IsSpacer p) : endsWord p.head? := by
  obtain ⟨c, hc, hident⟩ := (Option.any_eq_true _ _).1 h.2.2.1
  simpa [hc, endsWord] using hident

theorem exists_concat (h : IsSpacer p) : ∃ front d, p = front ++ [d] ∧ isIdentChar d = false := by
  obtain ⟨d, hd, hident⟩ := (Option.any_eq_true _ _).1 h.2.2.2
  obtain ⟨front, hfront⟩ := List.getLast?_eq_some_iff.1 hd
  exact ⟨front, d, hfront, by simpa using hident⟩

theorem endsWord_getLast? (h : IsSpacer p) : endsWord p.getLast? := by
  obtain ⟨front, d, rfl, hd⟩ := h.exists_concat
  rw [List.getLast?_concat]
  simp [endsWord, hd]

theorem isQuoteless (h : IsSpacer p) : IsQuoteless p :=
  fun c hc => ⟨(h.1 c hc).1, fun heq => h.2.1 (heq ▸ hc)⟩

end IsSpacer

theorem join_cons_cons (w p q : List Char) (parts : List (List Char)) :
    join w (p :: q :: parts) = p ++ w ++ join w (q :: parts) := rfl

theorem join_map_cons_cons (w p q : List Char) (parts : List (List Char))
    (f : List Char → List Char) :
    join w ((p :: q :: parts).map f) = f p ++ w ++ join w ((q :: parts).map f) := rfl

theorem IsSpacer.append_word {p w t : List Char} (hp : IsSpacer p) (hw : IsWord w)
    (ht : IsSpacer t) : IsSpacer (p ++ w ++ t) := by
  refine ⟨(hp.1.append hw.isPlain).append ht.1, ?_, ?_, ?_⟩
  · intro hmem
    simp only [List.mem_append] at hmem
    rcases hmem with (hmem | hmem) | hmem
    · exact hp.2.1 hmem
    · exact ne_of_isIdentChar (hw.letters _ hmem) rfl rfl
    · exact ht.2.1 hmem
  · obtain ⟨c, hc, hident⟩ := (Option.any_eq_true _ _).1 hp.2.2.1
    simpa [List.head?_append, hc] using hident
  · obtain ⟨front, d, rfl, hd⟩ := ht.exists_concat
    rw [← List.append_assoc, List.getLast?_concat]
    simpa using hd

/-- Spacers with a name between them, taken together, are one. -/
theorem isSpacer_join {w : List Char} {parts : List (List Char)} (hw : IsWord w)
    (hne : parts ≠ []) (hparts : ∀ p ∈ parts, IsSpacer p) : IsSpacer (join w parts) := by
  induction parts with
  | nil => exact absurd rfl hne
  | cons p parts ih =>
      have hp := hparts p List.mem_cons_self
      cases parts with
      | nil => exact hp
      | cons q parts =>
          have hrest := ih (by simp) fun r hr => hparts r (List.mem_cons_of_mem p hr)
          rw [join_cons_cons]
          exact hp.append_word hw hrest

/-- The name stands as a word wherever it was put. -/
theorem chop_use {w p t : List Char} (hw : IsWord w) (hp : IsSpacer p) (ht : IsSpacer t) :
    chop (p ++ w ++ t) = chop p ++ word w :: chop t := by
  rw [List.append_assoc, chop_append_of_last hp.endsWord_getLast?, chop_append ht.endsWord_head?,
    chop_word hw]
  rfl

/-- Renaming the uses of a name changes besides only what it changes in the parts
between them. -/
theorem renamed_uses {old : List Char} (new : List Char) (hold : IsWord old)
    {parts : List (List Char)} (hparts : ∀ p ∈ parts, IsSpacer p) :
    (chop (join old parts)).flatMap (renamed old new) =
      join new (parts.map fun p => (chop p).flatMap (renamed old new)) := by
  induction parts with
  | nil => rfl
  | cons p parts ih =>
      cases parts with
      | nil => rfl
      | cons q parts =>
          have hp := hparts p List.mem_cons_self
          have hrest : ∀ r ∈ q :: parts, IsSpacer r :=
            fun r hr => hparts r (List.mem_cons_of_mem p hr)
          have huse : (word old).renamed old new = new := if_pos rfl
          rw [join_cons_cons, chop_use hold hp (isSpacer_join hold (by simp) hrest),
            List.flatMap_append, List.flatMap_cons, huse, ih hrest, ← List.append_assoc]
          rfl

theorem exists_last_use {parts : List (List Char)} (hparts : ∀ p ∈ parts, IsSpacer p)
    (hlen : 2 ≤ parts.length) :
    ∃ q, ∀ w, ∃ front d, isIdentChar d = false ∧ join w parts = front ++ d :: w ++ q := by
  induction parts with
  | nil => simp at hlen
  | cons p parts ih =>
      have hrest : ∀ r ∈ parts, IsSpacer r := fun r hr => hparts r (List.mem_cons_of_mem p hr)
      match parts, ih, hlen, hrest with
      | [q], _, _, _ =>
          obtain ⟨front, d, hp, hd⟩ := (hparts p List.mem_cons_self).exists_concat
          exact ⟨q, fun w => ⟨front, d, hd, by simp [join, hp]⟩⟩
      | q :: r :: parts, ih, _, hrest =>
          obtain ⟨last, hlast⟩ := ih hrest (by simp)
          refine ⟨last, fun w => ?_⟩
          obtain ⟨front, d, hd, hjoin⟩ := hlast w
          exact ⟨p ++ w ++ front, d, hd, by rw [join_cons_cons, hjoin]; simp⟩

/-! ### Lengths -/

section

variable {old new : List Char}

/-- Renaming to a longer name makes a text longer, unless the name is no word of
it. -/
theorem length_renamed_le (hlen : old.length < new.length) (ls : List Lexeme) :
    (ls.flatMap text).length ≤ (ls.flatMap (renamed old new)).length := by
  have hcount := length_flatMap_renamed old new ls
  have hmul := Nat.mul_le_mul_left (ls.count (word old)) hlen.le
  omega

theorem not_mem_of_length_renamed (hlen : old.length < new.length) {ls : List Lexeme}
    (h : (ls.flatMap (renamed old new)).length = (ls.flatMap text).length) : word old ∉ ls := by
  intro hmem
  have hcount := length_flatMap_renamed old new ls
  have hmul := Nat.mul_lt_mul_of_pos_left hlen (List.count_pos_iff.2 hmem)
  omega

theorem length_join_le {w : List Char} {parts : List (List Char)} {f : List Char → List Char}
    (h : ∀ p ∈ parts, p.length ≤ (f p).length) :
    (join w parts).length ≤ (join w (parts.map f)).length := by
  induction parts with
  | nil => exact Nat.le_refl _
  | cons p parts ih =>
      have hp := h p List.mem_cons_self
      have hrest := ih fun q hq => h q (List.mem_cons_of_mem p hq)
      cases parts with
      | nil => exact hp
      | cons q parts =>
          rw [join_map_cons_cons, join_cons_cons]
          simp only [List.length_append]
          omega

theorem length_eq_of_length_join {w : List Char} {parts : List (List Char)}
    {f : List Char → List Char} (h : ∀ p ∈ parts, p.length ≤ (f p).length)
    (heq : (join w (parts.map f)).length = (join w parts).length) :
    ∀ p ∈ parts, (f p).length = p.length := by
  induction parts with
  | nil => simp
  | cons p parts ih =>
      have hp := h p List.mem_cons_self
      have hrest : ∀ q ∈ parts, q.length ≤ (f q).length :=
        fun q hq => h q (List.mem_cons_of_mem p hq)
      cases parts with
      | nil =>
          intro q hq
          rw [List.mem_singleton.1 hq]
          exact heq
      | cons q parts =>
          have hle := length_join_le (w := w) hrest
          rw [join_map_cons_cons, join_cons_cons] at heq
          simp only [List.length_append] at heq
          intro r hr
          rcases List.mem_cons.1 hr with rfl | hr
          · omega
          · exact ih hrest (by omega) r hr

end

/-! ### Declarations -/

/-- The code that binds a name to a value and uses it between some parts. -/
def declaring (name value : List Char) (parts : List (List Char)) : List Char :=
  "  const ".toList ++ name ++ " = ".toList ++ value ++ lineEnd (join name parts)

theorem lexemes_declaring {name : List Char} (hname : IsWord name) (value : List Char)
    (parts : List (List Char)) :
    lexemes none none (declaring name value parts) =
      chop "  const ".toList ++ word name :: chop " = ".toList ++
        lexemes (some '=') (some ' ') (value ++ lineEnd (join name parts)) := by
  have hopen : "  const ".toList = "  const".toList ++ [' '] := rfl
  have hequals : " = ".toList = [' ', '=', ' '] := rfl
  have hchop : chop [' ', '=', ' '] = [copied [' '], copied ['='], copied [' ']] := rfl
  show lexemes none none ("  const ".toList ++ name ++ " = ".toList ++ value ++
    lineEnd (join name parts)) = _
  simp only [List.append_assoc, hequals, hchop]
  rw [hopen, List.append_assoc, List.singleton_append,
    lexemes_plain_append (by decide) rfl rfl, lexemes_word hname rfl rfl, List.cons_append,
    List.cons_append, List.cons_append, List.nil_append, lexemes_char rfl (by decide) rfl,
    lexemes_char rfl (by decide) rfl, lexemes_char rfl (by decide) rfl]
  simp [isBlank]

theorem IsSpacer.lexemes_eq {p : List Char} (hp : IsSpacer p) {prev before : Option Char}
    (hbefore : endsWord before) : lexemes prev before p = chop p := by
  have hplain := hp.1
  obtain ⟨front, d, rfl, hd⟩ := hp.exists_concat
  exact lexemes_plain hplain hd hbefore

theorem eq_of_append_word {s t w x : List Char} {c d : Char} (hw : ∀ e ∈ w, isIdentChar e)
    (hx : ∀ e ∈ x, isIdentChar e) (hc : isIdentChar c = false) (hd : isIdentChar d = false)
    (h : s ++ c :: w = t ++ d :: x) : w = x := by
  have hends : ∀ {s w : List Char} {c : Char}, (∀ e ∈ w, isIdentChar e) →
      isIdentChar c = false → (s ++ c :: w).reverse.takeWhile isIdentChar = w.reverse := by
    intro s w c hw hc
    rw [List.reverse_append, List.reverse_cons, List.append_assoc, List.singleton_append,
      takeWhile_word (by simpa using hw) (by simpa [endsWord] using hc)]
  have hrev := hends (s := s) hw hc
  rw [h, hends hx hd] at hrev
  exact (List.reverse_inj.1 hrev).symm

/-- A quotation mark that the value leaves open hides the uses from renaming. -/
theorem renamed_ne_of_not_isClosedLine {old new value : List Char} {parts : List (List Char)}
    (hold : IsWord old) (hnew : IsWord new) (hne : old ≠ new)
    (hparts : ∀ p ∈ parts, IsSpacer p) (hlen : 2 ≤ parts.length) {prev before : Option Char}
    (hopen : ¬ IsClosedLine prev before value) :
    (lexemes prev before (value ++ lineEnd (join old parts))).flatMap (renamed old new) ≠
      value ++ lineEnd (join new parts) := by
  obtain ⟨ls, literal, hscan⟩ := lexemes_append_of_not_isClosedLine hopen
  have hquoteless : ∀ {w : List Char}, IsWord w → IsQuoteless (join w parts) := fun hw =>
    (isSpacer_join hw (by rintro rfl; simp at hlen) hparts).isQuoteless
  have htext : value ++ lineEnd (join new parts) =
      ls.flatMap text ++ literal ++ join new parts := by
    rw [← flatMap_text_lexemes prev before (value ++ lineEnd (join new parts)),
      hscan _ (hquoteless hnew)]
    simp [text]
  -- Both texts end alike after the last use, so the last uses would be equal.
  obtain ⟨q, huse⟩ := exists_last_use hparts hlen
  obtain ⟨front, c, hc, hjoin⟩ := huse old
  obtain ⟨front', d, hd, hjoin'⟩ := huse new
  intro heq
  rw [htext, hscan _ (hquoteless hold), hjoin, hjoin'] at heq
  have hcancel : ls.flatMap (renamed old new) ++ literal ++ front ++ c :: old =
      ls.flatMap text ++ literal ++ front' ++ d :: new := by
    refine List.append_cancel_right (?_ : _ ++ q = _ ++ q)
    simpa [renamed] using heq
  exact hne (eq_of_append_word hold.letters hnew.letters hc hd hcancel)

/-- Where scanning sees the end of the line, the value and the text between the
uses have to be free of the old name. -/
theorem renamed_eq_iff_of_isClosedLine {old new value : List Char} {parts : List (List Char)}
    (hold : IsWord old) (hlonger : old.length < new.length) (hparts : ∀ p ∈ parts, IsSpacer p)
    (hne : parts ≠ []) {prev before : Option Char} (hclosed : IsClosedLine prev before value) :
    (lexemes prev before (value ++ lineEnd (join old parts))).flatMap (renamed old new) =
        value ++ lineEnd (join new parts) ↔
      word old ∉ lexemes prev before (value ++ lineEnd []) ∧ ∀ p ∈ parts, word old ∉ chop p := by
  obtain ⟨p, hscan⟩ := hclosed.lexemes_append
  have hline : ∀ t, value ++ lineEnd t = value ++ lineEnd [] ++ t := by simp
  have htext := flatMap_text_lexemes prev before (value ++ lineEnd [])
  rw [hscan, (isSpacer_join hold hne hparts).lexemes_eq rfl, List.flatMap_append,
    renamed_uses new hold hparts, hline (join new parts)]
  constructor
  · -- No part gets shorter, so parts of the same total length are left as they were.
    intro heq
    have hvalue := length_renamed_le hlonger (lexemes prev before (value ++ lineEnd []))
    have hbetween : ∀ p ∈ parts, p.length ≤ ((chop p).flatMap (renamed old new)).length := by
      intro p hp
      simpa [flatMap_text_chop] using length_renamed_le hlonger (chop p)
    have huses := length_join_le (w := new) hbetween
    have hlength := congrArg List.length heq
    rw [htext] at hvalue
    rw [List.length_append, List.length_append] at hlength
    have hsame : ∀ p ∈ parts, ((chop p).flatMap (renamed old new)).length = p.length :=
      length_eq_of_length_join hbetween (w := new) (by omega)
    refine ⟨not_mem_of_length_renamed hlonger (by rw [htext]; omega), fun p hp => ?_⟩
    apply not_mem_of_length_renamed hlonger
    rw [hsame p hp, flatMap_text_chop]
  · rintro ⟨hfree, hbetween⟩
    have hsame : parts.map (fun p => (chop p).flatMap (renamed old new)) = parts := by
      refine (List.map_congr_left fun p hp => ?_).trans parts.map_id
      rw [flatMap_renamed_of_not_mem (hbetween p hp), flatMap_text_chop]
      rfl
    rw [flatMap_renamed_of_not_mem hfree, htext, hsame]

theorem renameFrom_declaring {old : List Char} (new value : List Char) (parts : List (List Char))
    (hold : IsWord old) (hconst : old ≠ "const".toList) :
    renameFrom old new none none (declaring old value parts) =
      "  const ".toList ++ new ++ " = ".toList ++
        (lexemes (some '=') (some ' ') (value ++ lineEnd (join old parts))).flatMap
          (renamed old new) := by
  have hfront : (chop "  const ".toList).flatMap (renamed old new) = "  const ".toList := by
    have hchop : chop "  const ".toList =
        [copied [' '], copied [' '], word "const".toList, copied [' ']] := by decide
    rw [hchop, flatMap_renamed_of_not_mem (by simpa using hconst)]
    rfl
  have hmiddle : (chop " = ".toList).flatMap (renamed old new) = " = ".toList := rfl
  have huse : (word old).renamed old new = new := if_pos rfl
  rw [renameFrom_eq_flatMap hold, lexemes_declaring hold, List.flatMap_append,
    List.flatMap_append, List.flatMap_cons, hfront, huse, hmiddle, ← List.append_assoc]

/-- Renaming a declaration to a longer name gives the code with the new name iff
the old one is no other word of it, and no literal hides the uses. -/
theorem renameFrom_declaring_iff {old new value : List Char} {parts : List (List Char)}
    (hold : IsWord old) (hnew : IsWord new) (hconst : old ≠ "const".toList)
    (hlonger : old.length < new.length) (hparts : ∀ p ∈ parts, IsSpacer p)
    (hlen : 2 ≤ parts.length) :
    renameFrom old new none none (declaring old value parts) = declaring new value parts ↔
      IsClosedLine (some '=') (some ' ') value ∧
        word old ∉ lexemes (some '=') (some ' ') (value ++ lineEnd []) ∧
          ∀ p ∈ parts, word old ∉ chop p := by
  have hshape : declaring new value parts = "  const ".toList ++ new ++ " = ".toList ++
      (value ++ lineEnd (join new parts)) := List.append_assoc _ value _
  rw [renameFrom_declaring new value parts hold hconst, hshape, List.append_cancel_left_eq]
  by_cases hclosed : IsClosedLine (some '=') (some ' ') value
  · have hne : parts ≠ [] := by
      rintro rfl
      simp at hlen
    rw [renamed_eq_iff_of_isClosedLine hold hlonger hparts hne hclosed]
    exact (and_iff_right hclosed).symm
  · have hne : old ≠ new := fun heq => by simp [heq] at hlonger
    have hdiff := renamed_ne_of_not_isClosedLine hold hnew hne hparts hlen hclosed
    exact ⟨fun heq => absurd heq hdiff, fun h => absurd h.1 hclosed⟩

end TraceExport.Script
