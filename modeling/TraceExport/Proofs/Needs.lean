import TraceExport.Script.Statement

/-!
What a script needs from the environment. The variables are kept in ascending
order, so each of them is there once, and neither address is among them.
-/

namespace TraceExport.Script

theorem mem_insertSorted {name n : String} {names : List String} :
    n ∈ insertSorted name names ↔ n = name ∨ n ∈ names := by
  induction names with
  | nil => simp [insertSorted]
  | cons head rest ih =>
      rw [insertSorted]
      split
      · simp
      split
      · rename_i heq
        simp [heq]
      · rw [List.mem_cons, ih, List.mem_cons, or_left_comm]

theorem pairwise_insertSorted {names : List String} (h : names.Pairwise (· < ·)) (name : String) :
    (insertSorted name names).Pairwise (· < ·) := by
  induction names with
  | nil => simp [insertSorted]
  | cons head rest ih =>
      obtain ⟨hhead, hrest⟩ := List.pairwise_cons.1 h
      rw [insertSorted]
      split
      · rename_i hlt
        refine List.pairwise_cons.2 ⟨fun n hn => ?_, h⟩
        rcases List.mem_cons.1 hn with rfl | hn
        · exact hlt
        · exact String.lt_trans hlt (hhead n hn)
      split
      · exact h
      · rename_i hnlt hne
        have hgt : head < name := String.not_le.1 fun hle => hne (String.le_antisymm hle hnlt)
        refine List.pairwise_cons.2 ⟨fun n hn => ?_, ih hrest⟩
        rcases mem_insertSorted.1 hn with rfl | hn
        · exact hgt
        · exact hhead n hn

namespace Needs

theorem mem_envVars_merge {a b : Needs} {var : String} :
    var ∈ (a.merge b).envVars ↔ var ∈ a.envVars ∨ var ∈ b.envVars := by
  unfold merge
  simp only
  induction b.envVars generalizing a with
  | nil => simp
  | cons name names ih =>
      have hstep := ih (a := ⟨insertSorted name a.envVars, a.loginBaseUrl⟩)
      rw [List.foldl_cons, hstep, mem_insertSorted, List.mem_cons, or_assoc, or_left_comm]

theorem pairwise_merge {a : Needs} (h : a.envVars.Pairwise (· < ·)) (b : Needs) :
    (a.merge b).envVars.Pairwise (· < ·) := by
  unfold merge
  simp only
  induction b.envVars generalizing a with
  | nil => exact h
  | cons name names ih =>
      exact ih (a := ⟨insertSorted name a.envVars, a.loginBaseUrl⟩) (pairwise_insertSorted h name)

theorem mem_envVars_foldl_merge {ns : List Needs} {a : Needs} {var : String} :
    var ∈ (ns.foldl merge a).envVars ↔ var ∈ a.envVars ∨ ∃ n ∈ ns, var ∈ n.envVars := by
  induction ns generalizing a with
  | nil => simp
  | cons n ns ih =>
      rw [List.foldl_cons, ih, mem_envVars_merge, or_assoc]
      simp only [List.mem_cons, exists_eq_or_imp]

theorem pairwise_ofVars (vars : List String) : (ofVars vars).envVars.Pairwise (· < ·) := by
  have hfold : ∀ (ns : List Needs) {a : Needs}, a.envVars.Pairwise (· < ·) →
      (ns.foldl merge a).envVars.Pairwise (· < ·) := by
    intro ns
    induction ns with
    | nil => exact fun h => h
    | cons n ns ih => exact fun h => ih (pairwise_merge h n)
  exact hfold _ .nil

theorem mem_envVars_ofVar {v var : String} :
    var ∈ (ofVar v).envVars ↔ var = v ∧ Spec.Placeholder.isAddress var = false := by
  unfold ofVar
  split
  · rename_i hbase
    simp only [none, List.not_mem_nil, false_iff, not_and]
    rintro rfl
    simp [Spec.Placeholder.isAddress, hbase]
  split
  · rename_i hlogin
    simp only [List.not_mem_nil, false_iff, not_and]
    rintro rfl
    simp [Spec.Placeholder.isAddress, hlogin]
  · rename_i hbase hlogin
    simp only [List.mem_singleton]
    refine ⟨?_, And.left⟩
    rintro rfl
    exact ⟨rfl, by simp [Spec.Placeholder.isAddress, hbase, hlogin]⟩

/-- The needs of some variables are those of each of them. -/
theorem mem_envVars_ofVars_iff {vars : List String} {var : String} :
    var ∈ (ofVars vars).envVars ↔ ∃ v ∈ vars, var ∈ (ofVar v).envVars := by
  have hnone : var ∉ none.envVars := List.not_mem_nil
  rw [ofVars, mem_envVars_foldl_merge, or_iff_right hnone]
  constructor
  · rintro ⟨n, hn, hvar⟩
    obtain ⟨v, hv, rfl⟩ := List.mem_map.1 hn
    exact ⟨v, hv, hvar⟩
  · rintro ⟨v, hv, hvar⟩
    exact ⟨ofVar v, List.mem_map_of_mem hv, hvar⟩

/-- Of some variables, those are read from the environment that are no address. -/
theorem mem_envVars_ofVars {vars : List String} {var : String} :
    var ∈ (ofVars vars).envVars ↔ var ∈ vars ∧ Spec.Placeholder.isAddress var = false := by
  rw [mem_envVars_ofVars_iff]
  constructor
  · rintro ⟨v, hv, hvar⟩
    obtain ⟨rfl, haddress⟩ := mem_envVars_ofVar.1 hvar
    exact ⟨hv, haddress⟩
  · rintro ⟨hv, haddress⟩
    exact ⟨var, hv, mem_envVars_ofVar.2 ⟨rfl, haddress⟩⟩

theorem loginBaseUrl_foldl_merge {ns : List Needs} {a : Needs} :
    (ns.foldl merge a).loginBaseUrl ↔ a.loginBaseUrl ∨ ∃ n ∈ ns, n.loginBaseUrl := by
  induction ns generalizing a with
  | nil => simp
  | cons n ns ih =>
      rw [List.foldl_cons, ih, merge, Bool.or_eq_true, or_assoc]
      simp only [List.mem_cons, exists_eq_or_imp]

theorem loginBaseUrl_ofVars_iff {vars : List String} :
    (ofVars vars).loginBaseUrl ↔ ∃ v ∈ vars, (ofVar v).loginBaseUrl := by
  have hnone : ¬none.loginBaseUrl := by simp [none]
  rw [ofVars, loginBaseUrl_foldl_merge, or_iff_right hnone]
  constructor
  · rintro ⟨n, hn, hlogin⟩
    obtain ⟨v, hv, rfl⟩ := List.mem_map.1 hn
    exact ⟨v, hv, hlogin⟩
  · rintro ⟨v, hv, hlogin⟩
    exact ⟨ofVar v, List.mem_map_of_mem hv, hlogin⟩

end Needs

theorem Statement.mem_envVars_needs {s : Statement} {var : String} :
    var ∈ s.needs.envVars ↔
      (∃ e, s.expr? = some e ∧ var ∈ e.vars) ∧ Spec.Placeholder.isAddress var = false := by
  unfold needs
  cases s.expr? with
  | none => simp [Needs.none]
  | some e => simp [Expr.needs, Needs.mem_envVars_ofVars]

end TraceExport.Script
