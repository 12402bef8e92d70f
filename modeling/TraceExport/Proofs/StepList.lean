import TraceExport.Proofs.StepSources
import TraceExport.Proofs.Target
import Mathlib.Data.List.Induction
import Mathlib.Data.List.Nodup

/-!
The step list, read for its steps and read for its variables. An item is a number, a mark and a
text on a line of the list (`IsItem`), and each item is a step. A number has a source if some
step with this number has a variable; the last such step gives it, with its variables in the
order in which they first occur (`mem_stepSources_iff`). So where no number is given twice, the
source of a step comes from the line of the step (`stepSources_steps`).
-/

namespace TraceExport.Spec

open Text

/-! ### Variables of a text -/

namespace Placeholder

/-- A variable stands somewhere in a text. -/
def HasVariable (text : String) : Prop :=
  ∃ front braced name back, IsBraced braced name ∧ text.toList = front ++ (braced ++ back)

/-- Names listed once each, in the order in which they first occur. -/
structure AreFirsts (occurring names : List String) : Prop where
  mem_iff : ∀ name, name ∈ names ↔ name ∈ occurring
  ordered : names.Pairwise fun a b => occurring.idxOf a < occurring.idxOf b

theorem areFirsts_eraseDups (l : List String) : AreFirsts l l.eraseDups := by
  refine ⟨fun name => List.mem_eraseDups, ?_⟩
  induction l using List.reverseRecOn with
  | nil => simp
  | append_singleton l x ih =>
      have hold : l.eraseDups.Pairwise fun a b => (l ++ [x]).idxOf a < (l ++ [x]).idxOf b :=
        ih.imp_of_mem fun {a b} ha hb hlt => by
          rwa [List.idxOf_append_of_mem (List.mem_eraseDups.1 ha),
            List.idxOf_append_of_mem (List.mem_eraseDups.1 hb)]
      rw [List.eraseDups_append]
      by_cases hx : x ∈ l
      · simpa [List.removeAll, hx] using hold
      · have hnew : ([x].removeAll l).eraseDups = [x] := by
          simp [List.removeAll, hx, List.eraseDups_cons]
        rw [hnew, List.pairwise_append]
        refine ⟨hold, List.pairwise_singleton .., fun a ha b hb => ?_⟩
        obtain rfl := List.mem_singleton.1 hb
        have ha := List.mem_eraseDups.1 ha
        rw [List.idxOf_append_of_mem ha, List.idxOf_append_of_notMem hx]
        exact Nat.lt_add_right _ (List.idxOf_lt_length_of_mem ha)

/-- A variable that stands in a text is found, or one in front of it. -/
theorem occurrences_ne_nil_iff {s : List Char} : occurrences s ≠ [] ↔
    ∃ front braced name back, IsBraced braced name ∧ s = front ++ (braced ++ back) := by
  unfold occurrences
  fun_induction pieces s with
  | case1 =>
      simp only [List.filterMap_nil, ne_eq, not_true_eq_false, false_iff]
      rintro ⟨front, braced, name, back, ⟨-, before, after, -, -, rfl⟩, h⟩
      simp [opening] at h
  | case2 c rest name after hread _ _ =>
      obtain ⟨braced, hbraced, hsplit⟩ := of_read? hread
      exact iff_of_true (by simp [Piece.name?]) ⟨[], braced, name, after, hbraced, hsplit⟩
  | case3 c rest hread ih =>
      rw [filterMap_consPlain, ih]
      constructor
      · rintro ⟨front, braced, name, back, hbraced, rfl⟩
        exact ⟨c :: front, braced, name, back, hbraced, rfl⟩
      · rintro ⟨front, braced, name, back, hbraced, h⟩
        cases front with
        | nil =>
            rw [h, List.nil_append, read?_append hbraced] at hread
            cases hread
        | cons d front => exact ⟨front, braced, name, back, hbraced, (List.cons.inj h).2⟩

theorem vars_ne_nil_iff {text : String} : vars text ≠ [] ↔ HasVariable text := by
  have hsame : vars text = [] ↔ occurrences text.toList = [] := by
    simp only [vars, List.eq_nil_iff_forall_not_mem, List.mem_eraseDups]
  rw [Ne, hsame, HasVariable, ← occurrences_ne_nil_iff]

end Placeholder

open Placeholder

/-! ### Items -/

/-- A line with an item of a numbered list: a number of at most 32 bits, a point or a bracket, a
blank, and a text, with blanks around it that do not belong to it. -/
def IsItem (line : List Char) (item : Nat × String) : Prop :=
  ∃ lead digits mark blank rest, line = lead ++ (digits ++ mark :: blank :: rest) ∧
    (∀ c ∈ lead, isInlineBlank c) ∧ (∀ c ∈ digits, c.isDigit) ∧
    stepNumber? digits = some item.1 ∧ (mark = '.' ∨ mark = ')') ∧ isInlineBlank blank ∧
    rest ≠ [] ∧ item.2 = String.ofList (trim rest)

theorem itemText?_eq_some {s : List Char} {text : String} : itemText? s = some text ↔
    ∃ blank rest, s = blank :: rest ∧ isInlineBlank blank ∧ rest ≠ [] ∧
      text = String.ofList (trim rest) := by
  cases s with
  | nil => simp [itemText?]
  | cons c rest =>
      rw [itemText?]
      split
      · rename_i h
        obtain ⟨hblank, hrest⟩ : isInlineBlank c ∧ rest ≠ [] := by simpa using h
        constructor
        · rintro ⟨⟩
          exact ⟨c, rest, rfl, hblank, hrest, rfl⟩
        · rintro ⟨_, _, ⟨⟩, -, -, rfl⟩
          rfl
      · rename_i h
        refine iff_of_false (by simp) ?_
        rintro ⟨_, _, ⟨⟩, hblank, hrest, -⟩
        simp [hblank, hrest] at h

/-- What is read behind the number of an item. -/
theorem numberedItem?_eq {line s : List Char} {mark : Char}
    (h : (line.dropWhile isInlineBlank).dropWhile Char.isDigit = mark :: s) :
    numberedItem? line = if mark == '.' || mark == ')' then
      match stepNumber? ((line.dropWhile isInlineBlank).takeWhile Char.isDigit), itemText? s with
      | some index, some text => some (index, text)
      | _, _ => none
    else none := by
  rw [numberedItem?]
  generalize (line.dropWhile isInlineBlank).dropWhile Char.isDigit = rest at h ⊢
  subst h
  rfl

theorem isItem_of_numberedItem? {line : List Char} {item : Nat × String}
    (h : numberedItem? line = some item) : IsItem line item := by
  cases hrest : (line.dropWhile isInlineBlank).dropWhile Char.isDigit with
  | nil => simp [numberedItem?, hrest] at h
  | cons mark s =>
      rw [numberedItem?_eq hrest] at h
      split at h
      · rename_i hmark
        split at h
        · rename_i index text hnumber htext
          cases h
          obtain ⟨blank, rest, rfl, hblank, hsome, htrim⟩ := itemText?_eq_some.1 htext
          refine ⟨line.takeWhile isInlineBlank, _, mark, blank, rest, ?_,
            List.all_eq_true.1 List.all_takeWhile, List.all_eq_true.1 List.all_takeWhile, hnumber,
            by simpa using hmark, hblank, hsome, htrim⟩
          rw [← hrest, List.takeWhile_append_dropWhile, List.takeWhile_append_dropWhile]
        · cases h
      · cases h

theorem numberedItem?_of_isItem {line : List Char} {item : Nat × String} (h : IsItem line item) :
    numberedItem? line = some item := by
  obtain ⟨lead, digits, mark, blank, rest, rfl, hlead, hdigits, hnumber, hmark, hblank, hrest,
    htext⟩ := h
  have hstop : mark.isDigit = false := by rcases hmark with rfl | rfl <;> rfl
  obtain ⟨digit, more, rfl⟩ : ∃ digit more, digits = digit :: more := by
    refine List.exists_cons_of_ne_nil ?_
    rintro rfl
    simp [stepNumber?] at hnumber
  have hfirst : isInlineBlank digit = false := by
    have hdigit := hdigits digit List.mem_cons_self
    refine Bool.eq_false_iff.2 fun hinline => ?_
    rcases (by simpa [isInlineBlank] using hinline : digit = ' ' ∨ digit = '\t') with rfl | rfl <;>
      cases hdigit
  have hnumbered : (lead ++ (digit :: more ++ mark :: blank :: rest)).dropWhile isInlineBlank =
      digit :: more ++ mark :: blank :: rest := by
    rw [List.dropWhile_append_of_pos hlead]
    simp [hfirst]
  have htake : (digit :: more ++ mark :: blank :: rest).takeWhile Char.isDigit = digit :: more := by
    rw [List.takeWhile_append_of_pos hdigits]
    simp [hstop]
  have hdrop : (digit :: more ++ mark :: blank :: rest).dropWhile Char.isDigit =
      mark :: blank :: rest := by
    rw [List.dropWhile_append_of_pos hdigits]
    simp [hstop]
  have hmarked : (mark == '.' || mark == ')') = true := by simpa using hmark
  rw [numberedItem?_eq (by rw [hnumbered, hdrop]), if_pos hmarked, hnumbered, htake, hnumber,
    itemText?_eq_some.2 ⟨blank, rest, rfl, hblank, hrest, htext⟩]

/-- The items of a list are those of its lines. -/
theorem numberedItem?_eq_some {line : List Char} {item : Nat × String} :
    numberedItem? line = some item ↔ IsItem line item :=
  ⟨isItem_of_numberedItem?, numberedItem?_of_isItem⟩

theorem mem_steps_iff {raw : String} {step : Step} : step ∈ (ofMarkdown raw).steps ↔
    ∃ line ∈ sectionItems raw "steps", ∃ item, IsItem line item ∧ step = Step.ofItem item := by
  simp only [ofMarkdown, stepItems, List.mem_map, List.mem_filterMap, numberedItem?_eq_some]
  constructor
  · rintro ⟨item, ⟨line, hline, hitem⟩, rfl⟩
    exact ⟨line, hline, item, hitem, rfl⟩
  · rintro ⟨line, hline, item, hitem, rfl⟩
    exact ⟨item, ⟨line, hline, hitem⟩, rfl⟩

/-! ### Sources by number -/

namespace StepSources

/-- Sources in ascending order, each number once. -/
def IsSorted (sources : StepSources) : Prop := sources.Pairwise (·.1 < ·.1)

theorem IsSorted.put {sources : StepSources} (h : IsSorted sources) (index : Nat)
    (source : StepSource) : IsSorted (StepSources.put index source sources) := by
  induction sources with
  | nil => exact List.pairwise_singleton ..
  | cons first rest ih =>
      obtain ⟨hfirst, hrest⟩ := List.pairwise_cons.1 h
      rw [StepSources.put]
      split
      · rename_i hlt
        exact List.pairwise_cons.2
          ⟨List.forall_mem_cons.2 ⟨hlt, fun entry hentry => hlt.trans (hfirst entry hentry)⟩, h⟩
      · rename_i hge
        split
        · rename_i heq
          exact List.pairwise_cons.2 ⟨fun entry hentry => heq ▸ hfirst entry hentry, hrest⟩
        · rename_i hne
          refine List.pairwise_cons.2 ⟨fun entry hentry => ?_, ih hrest⟩
          rcases mem_put hentry with rfl | hentry
          · exact lt_of_le_of_ne (not_lt.1 hge) (Ne.symm hne)
          · exact hfirst entry hentry

/-- A source that is set takes the place of the one with its number, and of no other. -/
theorem mem_put_iff {sources : StepSources} (h : IsSorted sources) {index : Nat}
    {source : StepSource} {entry : Nat × StepSource} :
    entry ∈ put index source sources ↔
      entry = (index, source) ∨ entry.1 ≠ index ∧ entry ∈ sources := by
  induction sources with
  | nil => simp [put]
  | cons first rest ih =>
      obtain ⟨hfirst, hrest⟩ := List.pairwise_cons.1 h
      rw [put]
      split
      · rename_i hlt
        have hother : entry ∈ first :: rest → entry.1 ≠ index := by
          intro hentry
          rcases List.mem_cons.1 hentry with rfl | hentry
          · exact Nat.ne_of_gt hlt
          · exact Nat.ne_of_gt (hlt.trans (hfirst entry hentry))
        rw [List.mem_cons, and_iff_right_of_imp hother]
      · split
        · rename_i heq
          have hother : entry ∈ rest → entry.1 ≠ index := fun hentry =>
            heq ▸ Nat.ne_of_gt (hfirst entry hentry)
          rw [List.mem_cons, List.mem_cons, and_or_left, and_iff_right_of_imp hother]
          refine or_congr_right (or_iff_right ?_).symm
          rintro ⟨hne, rfl⟩
          exact hne heq.symm
        · rename_i hne
          rw [List.mem_cons, ih hrest, List.mem_cons]
          constructor
          · rintro (rfl | rfl | ⟨hne', hentry⟩)
            · exact .inr ⟨Ne.symm hne, .inl rfl⟩
            · exact .inl rfl
            · exact .inr ⟨hne', .inr hentry⟩
          · rintro (rfl | ⟨hne', rfl | hentry⟩)
            · exact .inr (.inl rfl)
            · exact .inl rfl
            · exact .inr (.inr ⟨hne', hentry⟩)

theorem get?_eq_some {sources : StepSources} (h : IsSorted sources) {index : Nat}
    {source : StepSource} : sources.get? index = some source ↔ (index, source) ∈ sources := by
  refine ⟨mem_of_get?, fun hmem => ?_⟩
  induction sources with
  | nil => cases hmem
  | cons first rest ih =>
      obtain ⟨hfirst, hrest⟩ := List.pairwise_cons.1 h
      rcases List.mem_cons.1 hmem with rfl | hmem
      · simp [get?]
      · have hne : (first.1 == index) = false := by simpa using Nat.ne_of_lt (hfirst _ hmem)
        have hskip : get? (first :: rest) index = get? rest index := by simp [get?, hne]
        rw [hskip, ih hrest hmem]

/-- The last item with a number that has a variable. -/
def IsLastItem (items : List (Nat × String)) (index : Nat) (text : String) : Prop :=
  ∃ front back, items = front ++ (index, text) :: back ∧ HasVariable text ∧
    ∀ later ∈ back, later.1 = index → ¬ HasVariable later.2

theorem not_isLastItem_nil {index : Nat} {text : String} : ¬ IsLastItem [] index text := by
  rintro ⟨front, back, h, -⟩
  simp at h

/-- An item at the end is the last one of its number, and leaves others as they are. -/
theorem isLastItem_append {items : List (Nat × String)} {item : Nat × String} {index : Nat}
    {text : String} : IsLastItem (items ++ [item]) index text ↔
      item = (index, text) ∧ HasVariable text ∨
        (item.1 = index → ¬ HasVariable item.2) ∧ IsLastItem items index text := by
  constructor
  · rintro ⟨front, back, h, hvariable, hlater⟩
    rcases List.eq_nil_or_concat back with rfl | ⟨back, last, rfl⟩
    · obtain ⟨-, hitem⟩ := List.append_inj' h rfl
      exact .inl ⟨by simpa using hitem, hvariable⟩
    · rw [List.concat_eq_append, ← List.cons_append, ← List.append_assoc] at h
      obtain ⟨hfront, hitem⟩ := List.append_inj' h rfl
      obtain rfl : item = last := by simpa using hitem
      rw [List.concat_eq_append, List.forall_mem_append] at hlater
      exact .inr ⟨hlater.2 item (List.mem_singleton_self item), front, back, hfront, hvariable,
        hlater.1⟩
  · rintro (⟨rfl, hvariable⟩ | ⟨hitem, front, back, rfl, hvariable, hlater⟩)
    · exact ⟨items, [], rfl, hvariable, by simp⟩
    · refine ⟨front, back ++ [item], by simp, hvariable, List.forall_mem_append.2 ⟨hlater, ?_⟩⟩
      simpa using hitem

theorem isSorted_addItem {sources : StepSources} (h : IsSorted sources) (item : Nat × String) :
    IsSorted (sources.addItem item) := by
  unfold addItem
  simp only
  split
  · exact h
  · exact h.put _ _

/-- An item with a variable gives the source of its number. -/
theorem mem_addItem_iff {sources : StepSources} (h : IsSorted sources) {item : Nat × String}
    {entry : Nat × StepSource} : entry ∈ sources.addItem item ↔
      HasVariable item.2 ∧ entry = (item.1, StepSource.ofText item.2) ∨
        (item.1 = entry.1 → ¬ HasVariable item.2) ∧ entry ∈ sources := by
  unfold addItem
  simp only
  split
  · rename_i hnone
    have hvariable : ¬ HasVariable item.2 := by
      rw [← vars_ne_nil_iff, not_not]
      exact List.isEmpty_iff.1 hnone
    simp [hvariable]
  · rename_i hsome
    have hvariable : HasVariable item.2 := by
      rw [← vars_ne_nil_iff]
      exact mt List.isEmpty_iff.2 hsome
    rw [mem_put_iff h]
    simp [hvariable, eq_comm]

theorem isSorted_foldl (items : List (Nat × String)) : IsSorted (items.foldl addItem []) := by
  induction items using List.reverseRecOn with
  | nil => exact List.Pairwise.nil
  | append_singleton items item ih =>
      rw [List.foldl_append]
      exact isSorted_addItem ih item

/-- Of the items with one number, the last that has a variable gives the source. -/
theorem mem_foldl_addItem {items : List (Nat × String)} {index : Nat} {source : StepSource} :
    (index, source) ∈ items.foldl addItem [] ↔
      ∃ text, IsLastItem items index text ∧ source = StepSource.ofText text := by
  -- By the last item, which is the one that is put last.
  induction items using List.reverseRecOn with
  | nil => simp [not_isLastItem_nil]
  | append_singleton items item ih =>
      rw [List.foldl_append, List.foldl_cons, List.foldl_nil, mem_addItem_iff (isSorted_foldl items),
        ih]
      simp only [isLastItem_append]
      constructor
      · rintro (⟨hvariable, heq⟩ | ⟨hother, text, hlast, rfl⟩)
        · cases heq
          exact ⟨item.2, .inl ⟨rfl, hvariable⟩, rfl⟩
        · exact ⟨text, .inr ⟨hother, hlast⟩, rfl⟩
      · rintro ⟨text, ⟨rfl, hvariable⟩ | ⟨hother, hlast⟩, rfl⟩
        · exact .inl ⟨hvariable, rfl⟩
        · exact .inr ⟨hother, text, hlast, rfl⟩

end StepSources

/-! ### Sources and steps -/

/-- The last step with its number that has a variable. -/
def IsLastStep (steps : List Step) (step : Step) : Prop :=
  ∃ front back, steps = front ++ step :: back ∧ HasVariable step.text ∧
    ∀ later ∈ back, later.index = step.index → ¬ HasVariable later.text

theorem isLastStep_iff {items : List (Nat × String)} {step : Step} :
    IsLastStep (items.map Step.ofItem) step ↔
      StepSources.IsLastItem items step.index step.text ∧
        step = Step.ofItem (step.index, step.text) := by
  constructor
  · rintro ⟨front, back, h, hvariable, hlater⟩
    obtain ⟨before, rest, rfl, rfl, hrest⟩ := List.map_eq_append_iff.1 h
    obtain ⟨item, after, rfl, rfl, rfl⟩ := List.map_eq_cons_iff.1 hrest
    exact ⟨⟨before, after, rfl, hvariable, fun later hmem =>
      hlater (Step.ofItem later) (List.mem_map_of_mem hmem)⟩, rfl⟩
  · rintro ⟨⟨front, back, rfl, hvariable, hlater⟩, hstep⟩
    refine ⟨front.map Step.ofItem, back.map Step.ofItem, ?_, hvariable, ?_⟩
    · rw [List.map_append, List.map_cons, ← hstep]
    · exact List.forall_mem_map.2 hlater

/-- The source of a number is that of the last step with this number that has a variable. -/
theorem mem_stepSources_iff {raw : String} {index : Nat} {source : StepSource} :
    (index, source) ∈ stepSources raw ↔ ∃ step, IsLastStep (ofMarkdown raw).steps step ∧
      step.index = index ∧ source = StepSource.ofText step.text := by
  rw [stepSources, StepSources.mem_foldl_addItem]
  constructor
  · rintro ⟨text, hlast, rfl⟩
    exact ⟨Step.ofItem (index, text), isLastStep_iff.2 ⟨hlast, rfl⟩, rfl, rfl⟩
  · rintro ⟨step, hlast, rfl, rfl⟩
    exact ⟨step.text, (isLastStep_iff.1 hlast).1, rfl⟩

theorem IsLastStep.mem {steps : List Step} {step : Step} (h : IsLastStep steps step) :
    step ∈ steps := by
  obtain ⟨front, back, rfl, -⟩ := h
  simp

theorem IsLastStep.hasVariable {steps : List Step} {step : Step} (h : IsLastStep steps step) :
    HasVariable step.text := by
  obtain ⟨-, -, -, hvariable, -⟩ := h
  exact hvariable

/-- Among the steps with one number that have a variable, there is a last one. -/
theorem exists_isLastStep {steps : List Step} {step : Step} (hstep : step ∈ steps)
    (hvariable : HasVariable step.text) :
    ∃ last, IsLastStep steps last ∧ last.index = step.index := by
  induction steps generalizing step with
  | nil => cases hstep
  | cons first rest ih =>
      by_cases hlater : ∃ later ∈ rest, later.index = step.index ∧ HasVariable later.text
      · obtain ⟨later, hmem, hindex, hvariable'⟩ := hlater
        obtain ⟨last, ⟨front, back, rfl, hlast⟩, hsame⟩ := ih hmem hvariable'
        exact ⟨last, ⟨first :: front, back, rfl, hlast⟩, hsame.trans hindex⟩
      · push Not at hlater
        rcases List.mem_cons.1 hstep with rfl | hstep
        · exact ⟨step, ⟨[], rest, rfl, hvariable, hlater⟩, rfl⟩
        · exact absurd hvariable (hlater step hstep rfl)

/-- A number has a source exactly if a step with this number has a variable. The source is the
text of the last such step with the variables of this text, in the order in which they first
occur. Where no number is given twice, the source of a step comes from its own line. -/
theorem stepSources_steps (raw : String) :
    (∀ index source, (stepSources raw).get? index = some source ↔
        (index, source) ∈ stepSources raw) ∧
      (∀ index, (∃ source, (index, source) ∈ stepSources raw) ↔
        ∃ step ∈ (ofMarkdown raw).steps, step.index = index ∧ HasVariable step.text) ∧
      (∀ index source, (index, source) ∈ stepSources raw →
        (∃ step, IsLastStep (ofMarkdown raw).steps step ∧ step.index = index ∧
          source.text = step.text) ∧
        AreFirsts (occurrences source.text.toList) source.vars ∧ source.vars ≠ []) ∧
      (((ofMarkdown raw).steps.map Step.index).Nodup → ∀ step ∈ (ofMarkdown raw).steps,
        ∃ line ∈ sectionItems raw "steps", IsItem line (step.index, step.text) ∧
          ∀ source, (step.index, source) ∈ stepSources raw ↔
            HasVariable step.text ∧ source = StepSource.ofText step.text) := by
  refine ⟨fun index source => StepSources.get?_eq_some (StepSources.isSorted_foldl _),
    fun index => ⟨?_, ?_⟩, fun index source h => ?_, fun hnodup step hstep => ?_⟩
  · rintro ⟨source, h⟩
    obtain ⟨step, hlast, hindex, -⟩ := mem_stepSources_iff.1 h
    exact ⟨step, hlast.mem, hindex, hlast.hasVariable⟩
  · rintro ⟨step, hstep, rfl, hvariable⟩
    obtain ⟨last, hlast, hindex⟩ := exists_isLastStep hstep hvariable
    exact ⟨_, mem_stepSources_iff.2 ⟨last, hlast, hindex, rfl⟩⟩
  · obtain ⟨step, hlast, hindex, rfl⟩ := mem_stepSources_iff.1 h
    exact ⟨⟨step, hlast, hindex, rfl⟩, areFirsts_eraseDups _, vars_ne_nil_iff.2 hlast.hasVariable⟩
  · have honly : ∀ other ∈ (ofMarkdown raw).steps, other.index = step.index → other = step :=
      fun other hother hindex => List.inj_on_of_nodup_map hnodup hother hstep hindex
    obtain ⟨line, hline, item, hitem, rfl⟩ := mem_steps_iff.1 hstep
    refine ⟨line, hline, hitem, fun source => ?_⟩
    rw [mem_stepSources_iff]
    constructor
    · rintro ⟨last, hlast, hindex, rfl⟩
      obtain rfl := honly last hlast.mem hindex
      exact ⟨hlast.hasVariable, rfl⟩
    · rintro ⟨hvariable, rfl⟩
      obtain ⟨last, hlast, hindex⟩ := exists_isLastStep hstep hvariable
      obtain rfl := honly last hlast.mem hindex
      exact ⟨_, hlast, rfl, rfl⟩

/-- A list of two steps, both with variables. -/
def loginSteps : String :=
  "## Steps\n1. Go to {{BASE_URL}}\n2) Type {{USER}}/{{PASS}}/{{USER}}"

theorem stepSources_steps_login :
    ((ofMarkdown loginSteps).steps.map Step.index).Nodup ∧
      (stepSources loginSteps).get? 2 =
        some ⟨["USER", "PASS"], "Type {{USER}}/{{PASS}}/{{USER}}"⟩ ∧
      ∃ line ∈ sectionItems loginSteps "steps",
        IsItem line (2, "Type {{USER}}/{{PASS}}/{{USER}}") := by
  obtain ⟨hget, -, -, hown⟩ := stepSources_steps loginSteps
  have hnodup : ((ofMarkdown loginSteps).steps.map Step.index).Nodup := by decide +kernel
  have hstep : (⟨2, "Type {{USER}}/{{PASS}}/{{USER}}", .action⟩ : Step) ∈
      (ofMarkdown loginSteps).steps := by decide +kernel
  have hvars : Placeholder.vars "Type {{USER}}/{{PASS}}/{{USER}}" = ["USER", "PASS"] := by
    decide +kernel
  have hvariable : HasVariable "Type {{USER}}/{{PASS}}/{{USER}}" :=
    vars_ne_nil_iff.1 (by simp [hvars])
  obtain ⟨line, hline, hitem, hsource⟩ := hown hnodup _ hstep
  refine ⟨hnodup, (hget 2 _).2 ((hsource _).2 ⟨hvariable, ?_⟩), line, hline, hitem⟩
  rw [StepSource.ofText, hvars]

end TraceExport.Spec
