import TraceExport.Proofs.Placeholder
import TraceExport.Proofs.Written
import TraceExport.Spec.Wording

/-!
Texts that a step navigates to, with variables in them. The words of a step are parted by blanks, so
that such a text has none outside its placeholders (`isCompact_of_isTarget`).
-/

namespace TraceExport.Spec

open Text

namespace Placeholder

/-- No blank stands outside the placeholders. -/
def IsCompact (ps : List Piece) : Prop := ∀ text, .plain text ∈ ps → ∀ c ∈ text, isVisible c

theorem IsCompact.tail {p : Piece} {ps : List Piece} (h : IsCompact (p :: ps)) : IsCompact ps :=
  fun text htext => h text (List.mem_cons_of_mem p htext)

theorem isCompact_cons {name : List Char} {ps : List Piece} :
    IsCompact (.placeholder name :: ps) ↔ IsCompact ps := by
  simp [IsCompact]

theorem isCompact_consPlain {c : Char} {ps : List Piece} :
    IsCompact (consPlain c ps) ↔ isVisible c ∧ IsCompact ps := by
  unfold consPlain IsCompact
  split
  · simp [and_assoc]
  · simp

theorem isCompact_pieces {s : List Char} (h : ∀ c ∈ s, isVisible c) : IsCompact (pieces s) :=
  fun _ htext c hc => h c (mem_of_mem_plain htext hc)

theorem pieces_append {lead : List Char} (hlead : '\x7b' ∉ lead) (s : List Char) :
    pieces (lead ++ s) = lead.foldr consPlain (pieces s) := by
  induction lead with
  | nil => rfl
  | cons c lead ih =>
      rw [List.mem_cons, not_or] at hlead
      have hopens : (c :: (lead ++ s)).head? ≠ some '\x7b' := by simpa using Ne.symm hlead.1
      rw [List.cons_append, pieces_cons (read?_of_head hopens), ih hlead.2, List.foldr_cons]

theorem isCompact_foldr {lead : List Char} (hlead : ∀ c ∈ lead, isVisible c) {ps : List Piece}
    (h : IsCompact ps) : IsCompact (lead.foldr consPlain ps) := by
  induction lead with
  | nil => exact h
  | cons c lead ih =>
      obtain ⟨hc, hlead⟩ := List.forall_mem_cons.1 hlead
      exact isCompact_consPlain.2 ⟨hc, ih hlead⟩

/-! ### Names in braces -/

theorem trimStart_append {blanks s : List Char} (hblanks : ∀ c ∈ blanks, isBlank c)
    (hs : ∀ c ∈ s.head?, isBlank c = false) : trimStart (blanks ++ s) = s := by
  rw [trimStart, (span_append (fun _ => hs)).2, List.dropWhile_eq_nil_iff.2 hblanks,
    List.nil_append]

theorem isBlank_of_isNameChar {c : Char} (h : isNameChar c) : isBlank c = false :=
  isBlank_of_isIdentChar (Script.isIdentChar_of_isNameChar h)

theorem trimStart_name {blanks name : List Char} (hblanks : ∀ c ∈ blanks, isBlank c)
    (h : IsVariable name) (s : List Char) : trimStart (blanks ++ (name ++ s)) = name ++ s := by
  apply trimStart_append hblanks
  intro d hd
  obtain ⟨c, letters, rfl⟩ := List.exists_cons_of_ne_nil h.ne_nil
  obtain rfl : c = d := by simpa using hd
  exact isBlank_of_isNameChar (h.letters c List.mem_cons_self)

theorem trimStart_closing {blanks : List Char} (hblanks : ∀ c ∈ blanks, isBlank c)
    (s : List Char) : trimStart (blanks ++ (closing ++ s)) = closing ++ s := by
  apply trimStart_append hblanks
  intro d hd
  obtain rfl : '\x7d' = d := by simpa [closing] using hd
  rfl

theorem read?_append {braced name : List Char} (h : IsBraced braced name) (rest : List Char) :
    read? (braced ++ rest) = some (name, rest) := by
  obtain ⟨hvariable, before, after, hbefore, hafter, rfl⟩ := h
  have hend : ∀ d ∈ (after ++ (closing ++ rest)).head?, isNameChar d = false := by
    intro d hd
    cases after with
    | nil =>
        obtain rfl : '\x7d' = d := by simpa [closing] using hd
        rfl
    | cons e after =>
        obtain rfl : e = d := by simpa using hd
        refine Bool.eq_false_iff.2 fun hname => ?_
        have hblank := isBlank_of_isNameChar hname
        rw [hafter e List.mem_cons_self] at hblank
        cases hblank
  have hname := span_append (s := name) fun _ => hend
  rw [List.takeWhile_eq_self_iff.2 hvariable.letters,
    List.dropWhile_eq_nil_iff.2 hvariable.letters, List.nil_append] at hname
  rw [read?]
  simp only [List.append_assoc, dropPrefix?_append, trimStart_name hbefore hvariable, hname.1,
    hname.2, trimStart_closing hafter]
  simp [hvariable.ne_nil]

/-! ### Ends of a text -/

theorem IsBraced.head? {braced name : List Char} (h : IsBraced braced name) :
    ∃ rest, braced = '\x7b' :: rest := by
  obtain ⟨-, before, after, -, -, rfl⟩ := h
  exact ⟨_, rfl⟩

theorem IsBraced.getLast? {braced name : List Char} (h : IsBraced braced name) :
    braced.getLast? = some '\x7d' := by
  obtain ⟨-, before, after, -, -, rfl⟩ := h
  simp [closing, List.getLast?_append]

theorem isVisible_head {s : List Char} (h : IsCompact (pieces s)) :
    ∀ c ∈ s.head?, isVisible c := by
  cases s with
  | nil => simp
  | cons c s =>
      cases hread : read? (c :: s) with
      | some r =>
          obtain ⟨braced, hbraced, hsplit⟩ := of_read? hread
          obtain ⟨inside, rfl⟩ := hbraced.head?
          obtain ⟨rfl, -⟩ := List.cons.inj hsplit
          simpa using (by decide : isVisible '\x7b')
      | none =>
          rw [pieces_cons hread] at h
          simpa using (isCompact_consPlain.1 h).1

theorem isVisible_getLast {s : List Char} (h : IsCompact (pieces s)) :
    ∀ c ∈ s.getLast?, isVisible c := by
  fun_induction pieces s with
  | case1 => simp
  | case2 c s name rest hread _ ih =>
      obtain ⟨braced, hbraced, hsplit⟩ := of_read? hread
      have hlast := ih (isCompact_cons.1 h)
      rw [hsplit, List.getLast?_append, hbraced.getLast?]
      cases hrest : rest.getLast? with
      | none => simpa using (by decide : isVisible '\x7d')
      | some d => simpa [hrest] using hlast
  | case3 c s _ ih =>
      obtain ⟨hc, hs⟩ := isCompact_consPlain.1 h
      cases s with
      | nil => simpa using hc
      | cons d s => simpa [List.getLast?_cons_cons] using ih hs

theorem trimStart_of_isCompact {s : List Char} (h : IsCompact (pieces s)) : trimStart s = s := by
  cases s with
  | nil => rfl
  | cons c s =>
      have hc := isVisible_head h c rfl
      simp_all [trimStart, isVisible]

theorem trim_of_isCompact {s : List Char} (h : IsCompact (pieces s)) : trim s = s := by
  have hend : trimEnd s = s := by
    rcases List.eq_nil_or_concat s with rfl | ⟨front, c, rfl⟩
    · rfl
    · have hc : isBlank c = false := by
        simpa [isVisible] using isVisible_getLast h c (by simp)
      rw [List.concat_eq_append, trimEnd, trimEndOf_append hc]
      simp [trimEndOf]
  rw [trim, trimStart_of_isCompact h, hend]

/-! ### Texts without placeholders -/

theorem filterMap_consPlain (c : Char) (ps : List Piece) :
    (consPlain c ps).filterMap Piece.name? = ps.filterMap Piece.name? := by
  cases ps with
  | nil => rfl
  | cons p ps => cases p <;> rfl

theorem filterMap_foldr_consPlain (lead : List Char) (ps : List Piece) :
    (lead.foldr consPlain ps).filterMap Piece.name? = ps.filterMap Piece.name? := by
  induction lead with
  | nil => rfl
  | cons c lead ih => rw [List.foldr_cons, filterMap_consPlain, ih]

/-- Nothing is replaced in a text without placeholders. -/
theorem replace_of_occurrences {s : List Char} (h : occurrences s = [])
    (shown : List Char → List Char) : replace shown s = s := by
  unfold replace
  unfold occurrences at h
  fun_induction pieces s with
  | case1 => rfl
  | case2 c s name rest _ _ ih => simp [Piece.name?] at h
  | case3 c s _ ih =>
      rw [filterMap_consPlain] at h
      rw [flatMap_consPlain (fun _ => rfl), ih h]

theorem isVisible_of_occurrences {s : List Char} (h : occurrences s = [])
    (hcompact : IsCompact (pieces s)) : ∀ c ∈ s, isVisible c := by
  intro c hc
  rw [← replace_of_occurrences h fun _ => [], replace, List.mem_flatMap] at hc
  obtain ⟨piece, hpiece, hc⟩ := hc
  cases piece with
  | plain text => exact hcompact text hpiece c hc
  | placeholder name => simp at hc

/-- A text with nothing but a placeholder in it is replaced as a whole. -/
theorem replace_of_inked {s name : List Char} (hcompact : IsCompact (pieces s))
    (h : inked s = [.placeholder name]) (shown : List Char → List Char) :
    replace shown s = shown name := by
  have hfilter : ∀ ps : List Piece, IsCompact ps → ∀ f : Piece → List Char,
      (∀ text, f (.plain text) = text) → ps.flatMap f = (ps.filter (!·.isBlank)).flatMap f := by
    intro ps hps f hf
    induction ps with
    | nil => rfl
    | cons piece ps ih =>
        have hrest := ih hps.tail
        by_cases hblank : piece.isBlank
        · cases piece with
          | placeholder name => cases hblank
          | plain text =>
              have hempty : text = [] := by
                cases text with
                | nil => rfl
                | cons c text =>
                    have hc := hps _ List.mem_cons_self c List.mem_cons_self
                    simp_all [Piece.isBlank, isVisible]
              simp [hf, hempty, hrest, Piece.isBlank]
        · simp [hblank, hrest]
  rw [replace, hfilter _ hcompact _ fun _ => rfl]
  change (inked s).flatMap _ = _
  rw [h]
  simp

end Placeholder

/-! ### Phrases -/

/-- What a phrase keeps has no blanks. -/
def KeepsVisible (p : Phrase) : Prop :=
  ∀ s, ∀ r ∈ p.readings s, ∀ kept ∈ r.kept, ∀ c ∈ kept, isVisible c

theorem keepsVisible_of_kept {p : Phrase} (h : ∀ s, ∀ r ∈ p.readings s, r.kept = none) :
    KeepsVisible p := by
  intro s r hr kept hkept
  rw [h s r hr] at hkept
  cases hkept

theorem keepsVisible_exact (word : List Char) : KeepsVisible (.exact word) :=
  keepsVisible_of_kept fun s r hr => by
    rw [Phrase.readings] at hr
    split at hr <;> simp_all

theorem keepsVisible_anyCase (word : List Char) : KeepsVisible (.anyCase word) :=
  keepsVisible_of_kept fun s r hr => by
    obtain ⟨rest, -, rfl⟩ := List.mem_map.1 (by simpa only [Phrase.readings] using hr)
    rfl

theorem keepsVisible_run (p : Char → Bool) (least : Nat) : KeepsVisible (.run p least) :=
  keepsVisible_of_kept fun s r hr => by
    obtain ⟨rest, -, rfl⟩ := List.mem_map.1 (by simpa only [Phrase.readings] using hr)
    rfl

theorem keepsVisible_all {ps : List Phrase} (h : ∀ p ∈ ps, KeepsVisible p) :
    KeepsVisible (Phrase.all ps) := by
  induction ps with
  | nil => exact keepsVisible_exact []
  | cons p ps ih =>
      obtain ⟨hp, hps⟩ := List.forall_mem_cons.1 h
      cases ps with
      | nil => exact hp
      | cons q ps =>
          intro s r hr kept hkept
          change r ∈ (Phrase.followedBy p (Phrase.all (q :: ps))).readings s at hr
          rw [Phrase.readings, List.mem_flatMap] at hr
          obtain ⟨first, hfirst, hr⟩ := hr
          obtain ⟨second, hsecond, rfl⟩ := List.mem_map.1 hr
          rcases Option.or_eq_some_iff.1 hkept with hsome | ⟨-, hsome⟩
          · exact ih hps _ second hsecond kept hsome
          · exact hp _ first hfirst kept hsome

theorem keepsVisible_token : KeepsVisible token := by
  intro s r hr kept hkept c hc
  obtain ⟨first, hfirst, rfl⟩ := List.mem_map.1 (by simpa only [token, Phrase.readings] using hr)
  obtain ⟨rest, hrest, rfl⟩ := List.mem_map.1 hfirst
  obtain ⟨n, hn, rfl⟩ := List.mem_map.1 hrest
  cases hkept
  have hlength : n ≤ (s.takeWhile isVisible).length := by
    simp only [List.mem_reverse, List.mem_filter, List.mem_range] at hn
    omega
  have hkept : s.take (s.length - (s.drop n).length) <+: s.takeWhile isVisible := by
    have hcount : s.length - (s.drop n).length = n := by
      have hle := (List.takeWhile_prefix (l := s) isVisible).length_le
      rw [List.length_drop]
      omega
    rw [hcount]
    exact List.prefix_of_prefix_length_le (List.take_prefix n s) (List.takeWhile_prefix _)
      ((List.length_take_le n s).trans hlength)
  exact List.all_eq_true.1 List.all_takeWhile c (hkept.subset hc)

theorem keepsVisible_words (list : List String) : KeepsVisible (words list) := by
  refine keepsVisible_all fun p hp => ?_
  obtain ⟨word, -, rfl⟩ := List.mem_map.1 hp
  refine keepsVisible_all ?_
  simp only [List.forall_mem_cons]
  exact ⟨keepsVisible_anyCase _, keepsVisible_run _ _, by simp⟩

theorem keepsVisible_navigations : ∀ p ∈ navigations, KeepsVisible p := by
  simp only [navigations, List.forall_mem_cons]
  refine ⟨keepsVisible_all ?_, keepsVisible_all ?_, keepsVisible_all ?_, by simp⟩
  · simp only [List.forall_mem_cons]
    exact ⟨keepsVisible_words _, keepsVisible_token, by simp⟩
  · simp only [List.forall_mem_cons]
    exact ⟨keepsVisible_exact _, keepsVisible_run _ _, keepsVisible_token, by simp⟩
  · simp only [List.forall_mem_cons]
    exact ⟨keepsVisible_words _, keepsVisible_token, by simp⟩

theorem isVisible_of_navigationTarget? {s raw : List Char} (h : navigationTarget? s = some raw) :
    ∀ c ∈ raw, isVisible c := by
  obtain ⟨p, hp, hkept⟩ := List.exists_of_findSome?_eq_some h
  obtain ⟨r, hr, hraw⟩ := Option.bind_eq_some_iff.1 hkept
  exact keepsVisible_navigations p hp _ r (List.mem_of_mem_head? hr) raw hraw

/-! ### Addresses -/

/-- What is read of an address in front of its placeholder. -/
theorem of_afterLead (s : List Char) : ∃ lead, s = lead ++ afterLead s ∧
    ∀ c ∈ lead, isVisible c ∧ c ≠ '\x7b' := by
  unfold afterLead
  simp only
  split
  · rename_i rest hrest
    obtain ⟨start, hstart, hdrop⟩ := List.exists_of_findSome?_eq_some hrest
    refine ⟨start.toList ++ rest.takeWhile isAddressChar, ?_, List.forall_mem_append.2 ⟨?_, ?_⟩⟩
    · rw [dropPrefix?_eq_some.1 hdrop, List.append_assoc, List.takeWhile_append_dropWhile]
    · have hall : ["https://", "http://", "/"].all
          fun start => start.toList.all fun c => isVisible c && c != '\x7b' := by decide
      simp only [List.all_eq_true, Bool.and_eq_true, bne_iff_ne] at hall
      exact hall start hstart
    · intro c hc
      have haddress := List.all_eq_true.1 List.all_takeWhile c hc
      simp only [isAddressChar, Bool.and_eq_true, bne_iff_ne] at haddress
      exact haddress.1
  · exact ⟨[], by simp⟩

theorem take_length_sub (front back : List Char) :
    (front ++ back).take ((front ++ back).length - back.length) = front := by
  rw [List.length_append, Nat.add_sub_cancel, List.take_left]

/-- An address at the start of a text, without the stops behind it, is a placeholder with visible
characters around it. -/
theorem of_afterAddress? {s rest : List Char} (h : afterAddress? s = some rest) :
    ∃ lead braced name tail after,
      trimEndOf isStop (s.take (s.length - rest.length)) = lead ++ (braced ++ tail) ∧
      s = lead ++ (braced ++ after) ∧ Placeholder.IsBraced braced name ∧
      (∀ c ∈ lead, isVisible c ∧ c ≠ '\x7b') ∧ ∀ c ∈ tail, isVisible c := by
  obtain ⟨⟨name, after⟩, hread, rfl⟩ := Option.map_eq_some_iff.1 h
  obtain ⟨lead, hlead, hall⟩ := of_afterLead s
  obtain ⟨braced, hbraced, hafter⟩ := Placeholder.of_read? hread
  rw [hafter] at hlead
  obtain ⟨front, hfront⟩ := List.getLast?_eq_some_iff.1 hbraced.getLast?
  have htaken : s.take (s.length - (after.dropWhile isTailChar).length) =
      lead ++ (braced ++ after.takeWhile isTailChar) := by
    have hsplit : s = lead ++ (braced ++ after.takeWhile isTailChar) ++
        after.dropWhile isTailChar := by
      rw [List.append_assoc, List.append_assoc, List.takeWhile_append_dropWhile, ← hlead]
    rw [hsplit, take_length_sub]
  have htrimmed : trimEndOf isStop (lead ++ (braced ++ after.takeWhile isTailChar)) =
      lead ++ (braced ++ trimEndOf isStop (after.takeWhile isTailChar)) := by
    have htrim := trimEndOf_append (p := isStop) (c := '\x7d') rfl (lead ++ front)
      (after.takeWhile isTailChar)
    simpa [hfront] using htrim
  refine ⟨lead, braced, name, _, after, by rw [htaken, htrimmed], hlead, hbraced, hall,
    fun c hc => ?_⟩
  have hkept := List.all_eq_true.1 List.all_takeWhile c
    ((trimEndOf_isPrefix _ _).subset hc)
  simp only [isTailChar, Bool.and_eq_true] at hkept
  exact hkept.1.1.1

/-- An address in the words of a step is a placeholder with visible characters around it. -/
theorem of_addressToken? {s raw : List Char} (h : addressToken? s = some raw) :
    ∃ lead braced name tail, raw = lead ++ (braced ++ tail) ∧ Placeholder.IsBraced braced name ∧
      (∀ c ∈ lead, isVisible c ∧ c ≠ '\x7b') ∧ ∀ c ∈ tail, isVisible c := by
  induction s with
  | nil => simp [addressToken?] at h
  | cons c s ih =>
      rw [addressToken?] at h
      split at h
      · rename_i rest hrest
        obtain ⟨lead, braced, name, tail, -, hraw, -, hbraced, hlead, htail⟩ :=
          of_afterAddress? hrest
        rw [hraw] at h
        cases h
        exact ⟨lead, braced, name, tail, rfl, hbraced, hlead, htail⟩
      · exact ih h

theorem pieces_of_addressToken? {s raw : List Char} (h : addressToken? s = some raw) :
    ∃ (lead name tail : List Char), Placeholder.pieces raw =
        lead.foldr Placeholder.consPlain (.placeholder name :: Placeholder.pieces tail) ∧
      (∀ c ∈ lead, isVisible c) ∧ ∀ c ∈ tail, isVisible c := by
  obtain ⟨lead, braced, name, tail, rfl, hbraced, hlead, htail⟩ := of_addressToken? h
  refine ⟨lead, name, tail, ?_, fun c hc => (hlead c hc).1, htail⟩
  rw [Placeholder.pieces_append fun hmem => (hlead _ hmem).2 rfl,
    Placeholder.pieces_of_read? (Placeholder.read?_append hbraced tail)]

theorem isCompact_of_addressToken? {s raw : List Char} (h : addressToken? s = some raw) :
    Placeholder.IsCompact (Placeholder.pieces raw) := by
  obtain ⟨lead, name, tail, hpieces, hlead, htail⟩ := pieces_of_addressToken? h
  rw [hpieces]
  exact Placeholder.isCompact_foldr hlead
    (Placeholder.isCompact_cons.2 (Placeholder.isCompact_pieces htail))

/-- An address in the words of a step has a variable in it. -/
theorem vars_of_addressToken? {s raw : List Char} (h : addressToken? s = some raw) :
    Placeholder.vars (String.ofList raw) ≠ [] := by
  obtain ⟨lead, name, tail, hpieces, -, -⟩ := pieces_of_addressToken? h
  have hfirst : String.ofList name ∈ Placeholder.occurrences raw := by
    rw [Placeholder.occurrences, hpieces, Placeholder.filterMap_foldr_consPlain]
    exact List.mem_cons_self
  rw [Placeholder.vars, String.toList_ofList]
  exact List.ne_nil_of_mem (List.mem_eraseDups.2 hfirst)

/-- A text that a step can navigate to. -/
def IsTarget (raw : List Char) : Prop :=
  ∃ s, navigationTarget? s = some raw ∨ addressToken? s = some raw

theorem isCompact_of_isTarget {raw : List Char} (h : IsTarget raw) :
    Placeholder.IsCompact (Placeholder.pieces raw) := by
  obtain ⟨s, hnavigation | haddress⟩ := h
  · exact Placeholder.isCompact_pieces (isVisible_of_navigationTarget? hnavigation)
  · exact isCompact_of_addressToken? haddress

end TraceExport.Spec
