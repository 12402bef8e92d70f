import TraceExport.Script.Registry
import Mathlib.Data.List.Nodup
import Mathlib.Data.List.Perm.Subperm
import Mathlib.Logic.Function.Iterate

/-!
Claims of names. A claim gives a name that was not taken before and takes it.
One more name is tried than there are names taken, so the search cannot fail, and
it ends at the first name that is free (`isFirstFree_freeName`). A run of claims
gives each name only once (`nodup_claimAll`).
-/

namespace TraceExport.Script.Registry

@[simp] theorem contains_eq (r : Registry) (name : String) :
    r.contains name = decide (name ∈ r.used) := by
  simp [contains]

theorem append_toString_inj {base : String} {i j : Nat}
    (h : base ++ toString i = base ++ toString j) : i = j := by
  have hdigits : Nat.toDigits 10 i = Nat.toDigits 10 j := by
    simpa [String.toList_append] using congrArg String.toList h
  simpa using congrArg (fun digits => Nat.ofDigitChars 10 digits 0) hdigits

@[simp] theorem length_numbered (r : Registry) (base : String) :
    (r.numbered base).length = r.used.length + 1 := by
  simp [numbered]

theorem nodup_numbered (r : Registry) (base : String) : (r.numbered base).Nodup := by
  refine List.Nodup.map ?_ List.nodup_range
  intro i j h
  exact Nat.add_right_cancel (append_toString_inj h)

/-- Not all of the names that are tried can be taken. -/
theorem exists_mem_numbered_not_mem_used (r : Registry) (base : String) :
    ∃ name ∈ r.numbered base, name ∉ r.used := by
  by_contra hall
  push Not at hall
  have hlength := ((r.nodup_numbered base).subperm hall).length_le
  rw [length_numbered] at hlength
  omega

theorem getElem_numbered (r : Registry) (base : String) {i : Nat}
    (hi : i < (r.numbered base).length) : (r.numbered base)[i] = base ++ toString (i + 2) := by
  simp [numbered]

/-- What a claim has to give: the base where it is free, and otherwise the first of its numbered
forms that is, counted from two. -/
def IsFirstFree (taken : String → Prop) (base name : String) : Prop :=
  (¬ taken base ∧ name = base) ∨
    (taken base ∧ ∃ k, 2 ≤ k ∧ name = base ++ toString k ∧ ¬ taken name ∧
      ∀ j, 2 ≤ j → j < k → taken (base ++ toString j))

theorem isFirstFree_freeName (r : Registry) (base : String) :
    IsFirstFree (· ∈ r.used) base (r.freeName base) := by
  by_cases hbase : base ∈ r.used
  · right
    obtain ⟨free, hmem, hfree⟩ := r.exists_mem_numbered_not_mem_used base
    obtain ⟨name, hfind⟩ := Option.isSome_iff_exists.1 (List.find?_isSome.2
      ⟨free, hmem, by simpa using hfree⟩ : ((r.numbered base).find? (!r.contains ·)).isSome)
    have heq : r.freeName base = name := by
      rw [freeName, hfind, contains_eq, decide_eq_true hbase]
      rfl
    -- The search stops at the first of the names that are tried which is free.
    obtain ⟨hname, i, hi, rfl, hbefore⟩ := List.find?_eq_some_iff_getElem.1 hfind
    rw [getElem_numbered] at heq hname
    refine ⟨hbase, i + 2, by omega, heq, by simpa [heq] using hname, fun j hj hlt => ?_⟩
    have htaken := hbefore (j - 2) (by omega)
    rw [getElem_numbered, Nat.sub_add_cancel hj] at htaken
    simpa using htaken
  · exact .inl ⟨hbase, by simp [freeName, hbase]⟩

/-- A name is kept if it is free. Otherwise it gets a number that makes it free. -/
theorem freeName_cases (r : Registry) (base : String) :
    (base ∉ r.used ∧ r.freeName base = base) ∨
      (base ∈ r.used ∧ ∃ k, r.freeName base = base ++ toString (k + 2) ∧
        base ++ toString (k + 2) ∉ r.used) := by
  refine (r.isFirstFree_freeName base).imp_right ?_
  rintro ⟨hbase, k, hk, heq, hfree, -⟩
  obtain ⟨k, rfl⟩ := Nat.exists_eq_add_of_le' hk
  exact ⟨hbase, k, heq, heq ▸ hfree⟩

theorem freeName_not_mem (r : Registry) (base : String) : r.freeName base ∉ r.used := by
  obtain ⟨hbase, heq⟩ | ⟨-, k, heq, hfree⟩ := r.freeName_cases base
  · rwa [heq]
  · rwa [heq]

theorem freeName_eq_self_iff {r : Registry} {base : String} :
    r.freeName base = base ↔ base ∉ r.used := by
  constructor
  · intro heq
    rw [← heq]
    exact r.freeName_not_mem base
  · intro hbase
    simp [freeName, hbase]

@[simp] theorem claim_fst (r : Registry) (base : String) : (r.claim base).1 = r.freeName base := rfl

@[simp] theorem used_claim (r : Registry) (base : String) :
    (r.claim base).2.used = r.freeName base :: r.used := rfl

/-! ### The search as a loop -/

/-- The names that are tried, in their order. -/
def form (base : String) : Nat → String
  | 0 => base
  | i + 1 => base ++ toString (i + 2)

/-- One round of the search: a name that is taken gives way to the form with the next number. -/
def round (r : Registry) (base : String) (s : String × Nat) : String × Nat :=
  if r.contains s.1 then (base ++ toString s.2, s.2 + 1) else s

theorem iterate_round {r : Registry} {base : String} {n : Nat}
    (h : ∀ i < n, form base i ∈ r.used) : (r.round base)^[n] (base, 2) = (form base n, n + 2) := by
  induction n with
  | zero => rfl
  | succ n ih =>
      have hbefore := ih fun i hi => h i (Nat.lt_succ_of_lt hi)
      have htaken : r.contains (form base n) = true := by simpa using h n (Nat.lt_succ_self n)
      rw [Function.iterate_succ_apply', hbefore, round, if_pos htaken]
      rfl

/-- The search comes to an end: every name before this one is taken, and this one is free. -/
def SearchEnds (r : Registry) (base name : String) : Prop :=
  ∃ n, (∀ i < n, ((r.round base)^[i] (base, 2)).1 ∈ r.used) ∧
    ((r.round base)^[n] (base, 2)).1 = name ∧ name ∉ r.used

theorem searchEnds_of_isFirstFree {r : Registry} {base name : String}
    (h : IsFirstFree (· ∈ r.used) base name) : r.SearchEnds base name := by
  obtain ⟨n, hbefore, rfl, hfree⟩ :
      ∃ n, (∀ i < n, form base i ∈ r.used) ∧ form base n = name ∧ name ∉ r.used := by
    obtain ⟨hbase, rfl⟩ | ⟨hbase, k, hk, rfl, hfree, hbefore⟩ := h
    · exact ⟨0, by simp, rfl, hbase⟩
    · obtain ⟨k, rfl⟩ := Nat.exists_eq_add_of_le' hk
      refine ⟨k + 1, fun i hi => ?_, rfl, hfree⟩
      cases i with
      | zero => exact hbase
      | succ i => exact hbefore (i + 2) (by omega) (by omega)
  refine ⟨n, fun i hi => ?_, by rw [iterate_round hbefore], hfree⟩
  rw [iterate_round fun j hj => hbefore j (Nat.lt_trans hj hi)]
  exact hbefore i hi

/-! ### Claims one after the other -/

/-- Claims a name for each base, in their order. -/
def claimAll (r : Registry) : List String → List String × Registry
  | [] => ([], r)
  | base :: bases =>
    ((r.claim base).1 :: ((r.claim base).2.claimAll bases).1, ((r.claim base).2.claimAll bases).2)

/-- Claims can be cut in two at the registry in between. -/
theorem claimAll_append (r : Registry) (before after : List String) :
    r.claimAll (before ++ after) =
      ((r.claimAll before).1 ++ ((r.claimAll before).2.claimAll after).1,
        ((r.claimAll before).2.claimAll after).2) := by
  induction before generalizing r with
  | nil => rfl
  | cons base before ih => simp [claimAll, ih]

theorem length_claimAll (r : Registry) (bases : List String) :
    (r.claimAll bases).1.length = bases.length := by
  induction bases generalizing r with
  | nil => rfl
  | cons base bases ih => simp [claimAll, ih]

/-- Names that were claimed are taken, and no others besides those taken before. -/
theorem mem_used_claimAll {r : Registry} {bases : List String} {name : String} :
    name ∈ (r.claimAll bases).2.used ↔ name ∈ (r.claimAll bases).1 ∨ name ∈ r.used := by
  induction bases generalizing r with
  | nil => simp [claimAll]
  | cons base bases ih =>
      simp only [claimAll, ih, used_claim, claim_fst, List.mem_cons]
      tauto

theorem not_mem_used_of_mem_claimAll {r : Registry} {bases : List String} {name : String}
    (h : name ∈ (r.claimAll bases).1) : name ∉ r.used := by
  induction bases generalizing r with
  | nil => simp [claimAll] at h
  | cons base bases ih =>
      rcases List.mem_cons.1 h with rfl | h
      · exact r.freeName_not_mem base
      · have hrest := ih h
        rw [used_claim] at hrest
        exact fun hused => hrest (List.mem_cons_of_mem _ hused)

theorem nodup_claimAll (r : Registry) (bases : List String) : (r.claimAll bases).1.Nodup := by
  induction bases generalizing r with
  | nil => exact List.nodup_nil
  | cons base bases ih =>
      refine List.nodup_cons.2 ⟨fun hmem => ?_, ih _⟩
      exact not_mem_used_of_mem_claimAll hmem List.mem_cons_self

/-- Whatever is claimed, in whatever order: each claim finds taken what the file binds, what was
there from the beginning, and the names that were claimed before. Its search ends, it gives the
base or else the first numbered form that is free, and takes that name and no other. So all names
are different, and none is one of those that were there. -/
theorem claimAll_fresh (seed bases : List String) :
    ((seeded seed).claimAll bases).1.length = bases.length ∧
      ((seeded seed).claimAll bases).1.Nodup ∧
      (∀ name ∈ ((seeded seed).claimAll bases).1, name ∉ fileBindings ∧ name ∉ seed) ∧
      ∀ before base after, bases = before ++ base :: after →
        ∃ r name, ((seeded seed).claimAll before).2 = r ∧
          ((seeded seed).claimAll bases).1[before.length]? = some name ∧ (r.claim base).1 = name ∧
          (∀ x, x ∈ r.used ↔ x ∈ fileBindings ∨ x ∈ seed ∨
            x ∈ ((seeded seed).claimAll bases).1.take before.length) ∧
          r.SearchEnds base name ∧ IsFirstFree (· ∈ r.used) base name ∧
          ∀ x, x ∈ (r.claim base).2.used ↔ x = name ∨ x ∈ r.used := by
  have hseeded : ∀ x, x ∈ (seeded seed).used ↔ x ∈ fileBindings ∨ x ∈ seed := by
    simp [seeded]
  refine ⟨length_claimAll _ bases, nodup_claimAll _ bases, fun name hname => ?_, ?_⟩
  · have hfree := not_mem_used_of_mem_claimAll hname
    rw [hseeded, not_or] at hfree
    exact hfree
  · rintro before base after rfl
    have hlength := length_claimAll (seeded seed) before
    have hnames : ((seeded seed).claimAll (before ++ base :: after)).1 =
        ((seeded seed).claimAll before).1 ++ ((seeded seed).claimAll before).2.freeName base ::
          ((((seeded seed).claimAll before).2.claim base).2.claimAll after).1 := by
      rw [claimAll_append]
      rfl
    refine ⟨_, _, rfl, ?_, rfl, fun x => ?_, searchEnds_of_isFirstFree (isFirstFree_freeName _ base),
      isFirstFree_freeName _ base, fun x => ?_⟩
    · rw [hnames, ← hlength, List.getElem?_append_right (Nat.le_refl _), Nat.sub_self]
      rfl
    · rw [mem_used_claimAll, hseeded, hnames, ← hlength, List.take_left]
      tauto
    · rw [used_claim, List.mem_cons, claim_fst]

/-- Bases that are numbered forms of one another. -/
theorem claimAll_fresh_numbered :
    ["a", "a2", "a", "page"] = ["a", "a2"] ++ "a" :: ["page"] ∧
      ((seeded ["a"]).claimAll ["a", "a2", "a", "page"]).1 = ["a2", "a22", "a3", "page2"] ∧
      IsFirstFree (· ∈ ((seeded ["a"]).claimAll ["a", "a2"]).2.used) "a" "a3" := by
  have hsplit : ["a", "a2", "a", "page"] = ["a", "a2"] ++ "a" :: ["page"] := rfl
  have hnames : ((seeded ["a"]).claimAll ["a", "a2", "a", "page"]).1 =
      ["a2", "a22", "a3", "page2"] := by decide +kernel
  obtain ⟨-, -, -, hcalls⟩ := claimAll_fresh ["a"] ["a", "a2", "a", "page"]
  obtain ⟨r, name, rfl, hname, -, -, -, hfirst, -⟩ := hcalls _ _ _ hsplit
  rw [hnames] at hname
  cases hname
  exact ⟨hsplit, hnames, hfirst⟩

end TraceExport.Script.Registry
