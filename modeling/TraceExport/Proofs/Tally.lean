import TraceExport.Proofs.Needs
import TraceExport.Replay.Plan
import Mathlib.Data.List.Nodup

/-!
What is gathered from the results of a test. Each step of the tally speaks for
the bindings of the variables that a statement needs. A binding that another
variable has spoken for is an error; as long as there is none, different
variables have different bindings (`Sound.variableName_inj`).
-/

namespace TraceExport.Replay

open Script

namespace Tally

/-- The bindings that are spoken for are those of their variables, and no two have
the same name. -/
structure Functional (t : Tally) : Prop where
  nodup : (t.bindings.map Prod.fst).Nodup
  named : ∀ b ∈ t.bindings, b.1 = variableName b.2

/-- The invariant of the tally. -/
structure Sound (t : Tally) : Prop extends Functional t where
  sorted : t.needs.envVars.Pairwise (· < ·)
  foreign : ∀ var ∈ t.needs.envVars, Spec.Placeholder.isAddress var = false
  /-- Without errors, whatever is needed is spoken for. -/
  bound : t.errors = [] → ∀ var ∈ t.needs.envVars, (variableName var, var) ∈ t.bindings

/-! ### One binding -/

/-- A binding is new, or the variable had spoken for it before, or another one
had. -/
theorem bind_cases (t : Tally) (r : Trace.Record) (var : String) :
    (variableName var ∉ t.bindings.map Prod.fst ∧
        t.bind r var = { t with bindings := t.bindings ++ [(variableName var, var)] }) ∨
      ((variableName var, var) ∈ t.bindings ∧ t.bind r var = t) ∨
      ∃ first, first ≠ var ∧ (variableName var, first) ∈ t.bindings ∧ t.bind r var =
        { t with errors := t.errors ++
          [Error.of r (.sharedName first var (variableName var))] } := by
  unfold bind
  simp only
  split
  · rename_i hfind
    refine .inl ⟨fun hmem => ?_, rfl⟩
    obtain ⟨b, hb, hname⟩ := List.mem_map.1 hmem
    exact List.find?_eq_none.1 hfind b hb (by simpa using hname)
  · rename_i name first hfind
    have hmem := List.mem_of_find?_eq_some hfind
    obtain rfl : name = variableName var := by simpa using List.find?_some hfind
    split
    · rename_i heq
      exact .inr (.inl ⟨heq ▸ hmem, rfl⟩)
    · rename_i hne
      exact .inr (.inr ⟨first, hne, hmem, rfl⟩)

@[simp] theorem needs_bind (t : Tally) (r : Trace.Record) (var : String) :
    (t.bind r var).needs = t.needs := by
  obtain ⟨-, heq⟩ | ⟨-, heq⟩ | ⟨_, -, -, heq⟩ := t.bind_cases r var <;> rw [heq]

theorem bindings_subset_bind (t : Tally) (r : Trace.Record) (var : String) :
    t.bindings ⊆ (t.bind r var).bindings := by
  obtain ⟨-, heq⟩ | ⟨-, heq⟩ | ⟨_, -, -, heq⟩ := t.bind_cases r var
  · rw [heq]
    exact List.subset_append_left _ _
  · rw [heq]
    exact List.Subset.refl _
  · rw [heq]
    exact List.Subset.refl _

theorem Functional.bind {t : Tally} (h : t.Functional) (r : Trace.Record) (var : String) :
    (t.bind r var).Functional := by
  obtain ⟨hnew, heq⟩ | ⟨-, heq⟩ | ⟨_, -, -, heq⟩ := t.bind_cases r var
  · rw [heq]
    refine ⟨?_, fun b hb => ?_⟩
    · rw [List.map_append]
      refine List.nodup_append.2 ⟨h.nodup, List.nodup_singleton _, ?_⟩
      rintro name hname _ hlast rfl
      obtain rfl : name = variableName var := List.mem_singleton.1 hlast
      exact hnew hname
    · rcases List.mem_append.1 hb with hb | hb
      · exact h.named b hb
      · rw [List.mem_singleton.1 hb]
  · rwa [heq]
  · rw [heq]
    exact ⟨h.nodup, h.named⟩

/-- Without an error, there was none before, and the binding is spoken for. -/
theorem of_errors_bind {t : Tally} {r : Trace.Record} {var : String}
    (h : (t.bind r var).errors = []) :
    t.errors = [] ∧ (variableName var, var) ∈ (t.bind r var).bindings := by
  obtain ⟨-, heq⟩ | ⟨hmem, heq⟩ | ⟨_, -, -, heq⟩ := t.bind_cases r var
  · rw [heq] at h ⊢
    exact ⟨h, List.mem_append_right _ (List.mem_singleton_self _)⟩
  · rw [heq] at h ⊢
    exact ⟨h, hmem⟩
  · rw [heq] at h
    simp at h

/-! ### The bindings of a statement -/

def bindAll (t : Tally) (r : Trace.Record) (vars : List String) : Tally :=
  vars.foldl (fun t var => t.bind r var) t

@[simp] theorem needs_bindAll (t : Tally) (r : Trace.Record) (vars : List String) :
    (t.bindAll r vars).needs = t.needs := by
  unfold bindAll
  induction vars generalizing t with
  | nil => rfl
  | cons var vars ih => rw [List.foldl_cons, ih, needs_bind]

theorem bindings_subset_bindAll (t : Tally) (r : Trace.Record) (vars : List String) :
    t.bindings ⊆ (t.bindAll r vars).bindings := by
  unfold bindAll
  induction vars generalizing t with
  | nil => exact List.Subset.refl _
  | cons var vars ih => exact List.Subset.trans (t.bindings_subset_bind r var) (ih (t.bind r var))

theorem Functional.bindAll {t : Tally} (h : t.Functional) (r : Trace.Record)
    (vars : List String) : (t.bindAll r vars).Functional := by
  unfold Tally.bindAll
  induction vars generalizing t with
  | nil => exact h
  | cons var vars ih => exact ih (h.bind r var)

theorem of_errors_bindAll {t : Tally} {r : Trace.Record} {vars : List String}
    (h : (t.bindAll r vars).errors = []) :
    t.errors = [] ∧ ∀ var ∈ vars, (variableName var, var) ∈ (t.bindAll r vars).bindings := by
  unfold bindAll at h ⊢
  induction vars generalizing t with
  | nil => exact ⟨h, by simp⟩
  | cons var vars ih =>
      obtain ⟨hbind, hrest⟩ := ih h
      obtain ⟨ht, hvar⟩ := of_errors_bind hbind
      refine ⟨ht, List.forall_mem_cons.2 ⟨?_, hrest⟩⟩
      exact (t.bind r var).bindings_subset_bindAll r vars hvar

/-! ### Results -/

theorem add_ok (t : Tally) (r : Trace.Record) (s : Statement) :
    t.add (r, .ok s) =
      { t.bindAll r s.needs.envVars with
        needs := (t.bindAll r s.needs.envVars).needs.merge s.needs } := rfl

theorem add_error (t : Tally) (r : Trace.Record) (e : Error) :
    t.add (r, .error e) = { t with errors := t.errors ++ [e] } := rfl

theorem sound_empty : empty.Sound where
  nodup := List.nodup_nil
  named := by simp [empty]
  sorted := List.Pairwise.nil
  foreign := by simp [empty, Needs.none]
  bound := by simp [empty, Needs.none]

theorem Sound.add {t : Tally} (h : t.Sound) (result : Trace.Record × Except Error Statement) :
    (t.add result).Sound := by
  obtain ⟨r, e | s⟩ := result
  · rw [add_error]
    exact ⟨⟨h.nodup, h.named⟩, h.sorted, h.foreign, fun herrors => by simp at herrors⟩
  · have hfunctional := h.toFunctional.bindAll r s.needs.envVars
    rw [add_ok]
    refine ⟨⟨hfunctional.nodup, hfunctional.named⟩, ?_, fun var hvar => ?_,
      fun herrors var hvar => ?_⟩
    · rw [needs_bindAll]
      exact Needs.pairwise_merge h.sorted _
    · rcases Needs.mem_envVars_merge.1 hvar with hvar | hvar
      · exact h.foreign var (by simpa using hvar)
      · exact (Statement.mem_envVars_needs.1 hvar).2
    · -- What was needed before is still spoken for, and the rest is so by now.
      obtain ⟨ht, hbound⟩ := of_errors_bindAll herrors
      rcases Needs.mem_envVars_merge.1 hvar with hvar | hvar
      · exact t.bindings_subset_bindAll r _ (h.bound ht var (by simpa using hvar))
      · exact hbound var hvar

theorem mem_envVars_add {t : Tally} {result : Trace.Record × Except Error Statement}
    {var : String} : var ∈ (t.add result).needs.envVars ↔
      var ∈ t.needs.envVars ∨ ∃ s, result.2 = .ok s ∧ var ∈ s.needs.envVars := by
  obtain ⟨r, e | s⟩ := result
  · simp [add_error]
  · simp [add_ok, Needs.mem_envVars_merge]

theorem loginBaseUrl_add {t : Tally} {result : Trace.Record × Except Error Statement} :
    (t.add result).needs.loginBaseUrl ↔
      t.needs.loginBaseUrl ∨ ∃ s, result.2 = .ok s ∧ s.needs.loginBaseUrl := by
  obtain ⟨r, e | s⟩ := result
  · simp [add_error]
  · simp [add_ok, Needs.merge]

theorem Sound.foldl {t : Tally} (h : t.Sound)
    (results : List (Trace.Record × Except Error Statement)) :
    (results.foldl Tally.add t).Sound := by
  induction results generalizing t with
  | nil => exact h
  | cons result results ih => exact ih (h.add result)

theorem mem_envVars_foldl {t : Tally} {results : List (Trace.Record × Except Error Statement)}
    {var : String} : var ∈ (results.foldl Tally.add t).needs.envVars ↔
      var ∈ t.needs.envVars ∨
        ∃ result ∈ results, ∃ s, result.2 = .ok s ∧ var ∈ s.needs.envVars := by
  induction results generalizing t with
  | nil => simp
  | cons result results ih =>
      rw [List.foldl_cons, ih, mem_envVars_add, or_assoc]
      simp only [List.mem_cons, exists_eq_or_imp]

theorem loginBaseUrl_foldl {t : Tally} {results : List (Trace.Record × Except Error Statement)} :
    (results.foldl Tally.add t).needs.loginBaseUrl ↔
      t.needs.loginBaseUrl ∨ ∃ result ∈ results, ∃ s, result.2 = .ok s ∧ s.needs.loginBaseUrl := by
  induction results generalizing t with
  | nil => simp
  | cons result results ih =>
      rw [List.foldl_cons, ih, loginBaseUrl_add, or_assoc]
      simp only [List.mem_cons, exists_eq_or_imp]

/-- Without errors, different variables have different bindings. -/
theorem Sound.variableName_inj {t : Tally} (h : t.Sound) (herrors : t.errors = []) {v w : String}
    (hv : v ∈ t.needs.envVars) (hw : w ∈ t.needs.envVars)
    (heq : variableName v = variableName w) : v = w := by
  have hfirst := h.bound herrors v hv
  have hsecond := h.bound herrors w hw
  have hpair := List.inj_on_of_nodup_map h.nodup hfirst hsecond heq
  exact congrArg Prod.snd hpair

end Tally

theorem sound_tally (ds : List Draft) : (tally ds).Sound := Tally.sound_empty.foldl _

/-- What the script reads from the environment is what its statements need. -/
theorem mem_envVars_tally {ds : List Draft} {var : String} :
    var ∈ (tally ds).needs.envVars ↔
      ∃ d ∈ ds, ∃ result ∈ d.results, ∃ s, result.2 = .ok s ∧ var ∈ s.needs.envVars := by
  have hempty : var ∉ Tally.empty.needs.envVars := List.not_mem_nil
  rw [tally, Tally.mem_envVars_foldl, or_iff_right hempty]
  simp only [List.mem_flatMap]
  constructor
  · rintro ⟨result, ⟨d, hd, hresult⟩, hs⟩
    exact ⟨d, hd, result, hresult, hs⟩
  · rintro ⟨d, hd, result, hresult, hs⟩
    exact ⟨result, ⟨d, hd, hresult⟩, hs⟩

end TraceExport.Replay
