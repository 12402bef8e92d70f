import TraceExport.Proofs.Lexeme
import TraceExport.Proofs.Registry

/-!
The search for a declaration. It looks at the characters of a text and knows
nothing of literals or comments. Where the text has a character that is in no
declaration, both sides of it can be searched one after the other; where it has
no `c`, no declaration begins.
-/

namespace TraceExport.Script

open Text

/-- Characters that are in no declaration. -/
def isBarrier (c : Char) : Bool := !isBlank c && !isIdentChar c && c != '='

theorem dropPrefix?_append_stop {lead : List Char} {c : Char} (hc : c ∉ lead)
    (s t : List Char) :
    dropPrefix? lead (s ++ c :: t) = (dropPrefix? lead s).map (· ++ c :: t) := by
  induction lead generalizing s with
  | nil => rfl
  | cons p lead ih =>
      rw [List.mem_cons, not_or] at hc
      cases s with
      | nil => exact if_neg (Ne.symm hc.1)
      | cons d s =>
          rw [List.cons_append, dropPrefix?, dropPrefix?, ih hc.2]
          split <;> rfl

theorem trimStart_append_stop (s : List Char) {c : Char} (hc : isBlank c = false)
    (t : List Char) : trimStart (s ++ c :: t) = trimStart s ++ c :: t :=
  dropWhile_append_stop s hc t

theorem const_of_declarationAt? {s name : List Char} (h : declarationAt? s = some name) :
    "const".toList <+: s := by
  unfold declarationAt? at h
  split at h
  · simp at h
  · rename_i rest hrest
    exact ⟨rest, (dropPrefix?_eq_some.1 hrest).symm⟩

theorem eq_mem_of_declarationAt? {s name : List Char} (h : declarationAt? s = some name) :
    '=' ∈ s := by
  unfold declarationAt? at h
  split at h
  · simp at h
  · rename_i rest hrest
    obtain rfl := dropPrefix?_eq_some.1 hrest
    simp only at h
    split at h
    · simp at h
    · split at h
      · rename_i c hhead hequals
        apply List.mem_append_right
        have hmem := List.mem_of_head? hequals
        exact (List.dropWhile_suffix _).subset
          ((List.dropWhile_suffix _).subset ((List.dropWhile_suffix _).subset hmem))
      · simp at h

theorem declarationAt?_append_barrier {c : Char} (hc : isBarrier c) (s t : List Char) :
    declarationAt? (s ++ c :: t) = declarationAt? s := by
  obtain ⟨⟨hblank, hident⟩, hequals⟩ : (isBlank c = false ∧ isIdentChar c = false) ∧ c ≠ '=' := by
    simpa [isBarrier] using hc
  have hconst : c ∉ "const".toList := by
    intro hmem
    have hall : ∀ d ∈ "const".toList, isIdentChar d := by simp [isIdentChar]
    simp [hall c hmem] at hident
  unfold declarationAt?
  rw [dropPrefix?_append_stop hconst]
  cases dropPrefix? "const".toList s with
  | none => rfl
  | some rest =>
      -- The blanks, the name and the blanks after it all end at the barrier, if
      -- they last that long.
      have hlength : (trimStart rest ++ c :: t).length = (rest ++ c :: t).length ↔
          (trimStart rest).length = rest.length := by simp
      simp only [Option.map_some, trimStart_append_stop rest hblank t, hlength]
      by_cases hlen : (trimStart rest).length = rest.length
      · rw [if_pos hlen, if_pos hlen]
      rw [if_neg hlen, if_neg hlen]
      cases hname : trimStart rest with
      | nil => simp [trimStart, hident, hblank, hequals]
      | cons d name =>
          have hcut := dropWhile_append_stop (p := isIdentChar) (d :: name) hident t
          have htake := takeWhile_append_stop (p := isIdentChar) (d :: name) hident t
          rw [hcut, htake, trimStart_append_stop _ hblank]
          cases hafter : trimStart ((d :: name).dropWhile isIdentChar) with
          | nil => simp [hequals]
          | cons e after => rfl

theorem firstDeclaration?_append_barrier {c : Char} (hc : isBarrier c) (s t : List Char) :
    firstDeclaration? (s ++ c :: t) = (firstDeclaration? s).or (firstDeclaration? t) := by
  induction s with
  | nil =>
      have hnone := declarationAt?_append_barrier hc [] t
      rw [List.nil_append] at hnone ⊢
      rw [firstDeclaration?, firstDeclaration?, hnone]
      rfl
  | cons d s ih =>
      have hhere := declarationAt?_append_barrier hc (d :: s) t
      rw [List.cons_append] at hhere ⊢
      rw [firstDeclaration?, firstDeclaration?, hhere, ih]
      split <;> rfl

/-- No declaration begins in a text without a `c`. -/
theorem firstDeclaration?_append_of_no_c {s : List Char} (hs : 'c' ∉ s) (t : List Char) :
    firstDeclaration? (s ++ t) = firstDeclaration? t := by
  induction s with
  | nil => rfl
  | cons d s ih =>
      rw [List.mem_cons, not_or] at hs
      have hnone : declarationAt? (d :: (s ++ t)) = none := by
        apply Option.eq_none_iff_forall_ne_some.2
        intro name hname
        obtain ⟨rest, hrest⟩ := const_of_declarationAt? hname
        exact hs.1 (by simpa using congrArg List.head? hrest)
      rw [List.cons_append, firstDeclaration?, hnone, ih hs.2]

theorem firstDeclaration?_eq_none_of_no_equals {s : List Char} (hs : '=' ∉ s) :
    firstDeclaration? s = none := by
  induction s with
  | nil => rfl
  | cons d s ih =>
      rw [firstDeclaration?, ih fun hmem => hs (List.mem_cons_of_mem d hmem)]
      cases hhere : declarationAt? (d :: s) with
      | none => rfl
      | some name => exact absurd (eq_mem_of_declarationAt? hhere) hs

theorem firstDeclaration?_eq_none_of_no_const {s : List Char} (hs : ¬ "const".toList <:+: s) :
    firstDeclaration? s = none := by
  induction s with
  | nil => rfl
  | cons d s ih =>
      rw [firstDeclaration?, ih fun hrest => hs (hrest.trans (List.suffix_cons d s).isInfix)]
      cases hhere : declarationAt? (d :: s) with
      | none => rfl
      | some name => exact absurd (const_of_declarationAt? hhere).isInfix hs

/-! ### Fragments -/

/-- Text that cuts off what stands on its left. -/
def IsClosing (s : String) : Prop := s.toList.head?.any isBarrier ∧ '=' ∉ s.toList

/-- Text that cuts off what stands on its right: no declaration begins after its
last barrier. -/
def IsOpening (s : String) : Prop :=
  'c' ∉ s.toList.reverse.takeWhile (!isBarrier ·) ∧ '=' ∉ s.toList

instance (s : String) : Decidable (IsClosing s) := by unfold IsClosing; infer_instance

instance (s : String) : Decidable (IsOpening s) := by unfold IsOpening; infer_instance

theorem declaredName?_eq_none_iff {code : String} :
    declaredName? code = none ↔ firstDeclaration? code.toList = none := by
  simp [declaredName?]

theorem declaredName?_eq_none_of_no_equals {s : String} (hs : '=' ∉ s.toList) :
    declaredName? s = none :=
  declaredName?_eq_none_iff.2 (firstDeclaration?_eq_none_of_no_equals hs)

theorem IsClosing.shape {t : String} (h : IsClosing t) :
    ∃ c rest, t.toList = c :: rest ∧ isBarrier c ∧ '=' ∉ rest := by
  obtain ⟨hhead, hequals⟩ := h
  obtain ⟨c, hc, hbarrier⟩ := (Option.any_eq_true _ _).1 hhead
  obtain ⟨rest, hrest⟩ := List.head?_eq_some_iff.1 hc
  rw [hrest] at hequals
  exact ⟨c, rest, hrest, hbarrier, fun hmem => hequals (List.mem_cons_of_mem c hmem)⟩

theorem IsOpening.firstDeclaration?_append {s : String} (h : IsOpening s) (t : List Char) :
    firstDeclaration? (s.toList ++ t) = firstDeclaration? t := by
  obtain ⟨hc, hequals⟩ := h
  have hsplit := List.takeWhile_append_dropWhile (p := (!isBarrier ·)) (l := s.toList.reverse)
  have hback := congrArg List.reverse hsplit
  rw [List.reverse_append, List.reverse_reverse] at hback
  -- What stands after the last barrier has no declaration, and neither has what
  -- stands in front of it.
  have htail : 'c' ∉ (s.toList.reverse.takeWhile (!isBarrier ·)).reverse := by simpa using hc
  cases hfront : s.toList.reverse.dropWhile (!isBarrier ·) with
  | nil =>
      rw [hfront, List.reverse_nil, List.nil_append] at hback
      rw [← hback, firstDeclaration?_append_of_no_c htail]
  | cons b front =>
      have hb : isBarrier b := by
        have hhead := List.head_dropWhile_not (!isBarrier ·) (l := s.toList.reverse)
          (by simp [hfront])
        simpa [hfront] using hhead
      rw [hfront, List.reverse_cons] at hback
      rw [← hback] at hequals
      have hnone : firstDeclaration? front.reverse = none :=
        firstDeclaration?_eq_none_of_no_equals fun hmem => hequals (by simp [hmem])
      rw [← hback, List.append_assoc, List.append_assoc, List.singleton_append,
        firstDeclaration?_append_barrier hb, hnone, Option.none_or,
        firstDeclaration?_append_of_no_c htail]

theorem declaredName?_append_closing {t : String} (ht : IsClosing t) (s : String) :
    declaredName? (s ++ t) = declaredName? s := by
  obtain ⟨c, rest, hshape, hc, hequals⟩ := ht.shape
  rw [declaredName?, String.toList_append, hshape, firstDeclaration?_append_barrier hc,
    firstDeclaration?_eq_none_of_no_equals hequals, Option.or_none, declaredName?]

theorem declaredName?_opening_append {s : String} (hs : IsOpening s) (t : String) :
    declaredName? (s ++ t) = declaredName? t := by
  rw [declaredName?, String.toList_append, hs.firstDeclaration?_append, declaredName?]

/-- The sides of a text that cuts off both are searched one after the other. -/
theorem declaredName?_append_gap {k : String} (hclose : IsClosing k) (hopen : IsOpening k)
    (s t : String) : declaredName? (s ++ (k ++ t)) = (declaredName? s).or (declaredName? t) := by
  obtain ⟨c, rest, hshape, hc, -⟩ := hclose.shape
  have hright := hopen.firstDeclaration?_append t.toList
  have hrest : firstDeclaration? (c :: (rest ++ t.toList)) =
      firstDeclaration? (rest ++ t.toList) := by
    simpa [firstDeclaration?] using firstDeclaration?_append_barrier hc [] (rest ++ t.toList)
  rw [hshape, List.cons_append, hrest] at hright
  rw [declaredName?, String.toList_append, String.toList_append, hshape, List.cons_append,
    firstDeclaration?_append_barrier hc, Option.map_or, hright]
  rfl

/-- A fragment passes unchanged iff no declaration is found in it: any claim
takes one more name. -/
theorem distinguish_eq_self_iff {code : String} {r : Registry} :
    distinguish code r = (code, r) ↔ declaredName? code = none := by
  unfold distinguish
  cases declaredName? code with
  | none => simp
  | some name =>
      refine ⟨fun h => ?_, fun h => by simp at h⟩
      have hused := congrArg (fun result => result.2.used.length) h
      simp at hused

end TraceExport.Script
