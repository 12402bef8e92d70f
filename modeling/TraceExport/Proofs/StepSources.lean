import TraceExport.Spec.Markdown

/-!
The sources of steps as they are read from a specification. Each of them comes
from an item of the step list that has a variable.
-/

namespace TraceExport.Spec.StepSources

theorem mem_of_get? {sources : StepSources} {index : Nat} {source : StepSource}
    (h : sources.get? index = some source) : (index, source) ∈ sources := by
  obtain ⟨entry, hfind, rfl⟩ := Option.map_eq_some_iff.1 h
  have hindex : entry.1 = index := by simpa using List.find?_some hfind
  rw [← hindex]
  exact List.mem_of_find?_eq_some hfind

theorem mem_put {sources : StepSources} {index : Nat} {source : StepSource}
    {entry : Nat × StepSource} (h : entry ∈ put index source sources) :
    entry = (index, source) ∨ entry ∈ sources := by
  induction sources with
  | nil => exact .inl (by simpa [put] using h)
  | cons first rest ih =>
      rw [put] at h
      split at h
      · simpa using h
      · split at h
        · exact (List.mem_cons.1 h).imp_right (List.mem_cons_of_mem _)
        · rcases List.mem_cons.1 h with rfl | h
          · exact .inr List.mem_cons_self
          · exact (ih h).imp_right (List.mem_cons_of_mem _)

/-- An entry that an item of the step list gives. -/
def FromItem (entry : Nat × StepSource) : Prop :=
  ∃ text, entry.2 = StepSource.ofText text ∧ entry.2.vars ≠ []

theorem fromItem_addItem {sources : StepSources} (h : ∀ entry ∈ sources, FromItem entry)
    (item : Nat × String) : ∀ entry ∈ sources.addItem item, FromItem entry := by
  intro entry hentry
  unfold addItem at hentry
  simp only at hentry
  split at hentry
  · exact h entry hentry
  · rename_i hvars
    rcases mem_put hentry with rfl | hentry
    · exact ⟨item.2, rfl, by simpa using hvars⟩
    · exact h entry hentry

theorem fromItem_stepSources (text : String) : ∀ entry ∈ stepSources text, FromItem entry := by
  unfold stepSources
  suffices h : ∀ (items : List (Nat × String)) (sources : StepSources),
      (∀ entry ∈ sources, FromItem entry) →
      ∀ entry ∈ items.foldl addItem sources, FromItem entry from h _ [] (by simp)
  intro items
  induction items with
  | nil => exact fun _ h => h
  | cons item items ih => exact fun sources h => ih _ (fromItem_addItem h item)

/-- The source of a step is the text of an item, with all of its variables. -/
theorem get?_stepSources {text : String} {index : Nat} {source : StepSource}
    (h : (stepSources text).get? index = some source) :
    ∃ item, source = StepSource.ofText item ∧ source.vars ≠ [] :=
  fromItem_stepSources text _ (mem_of_get? h)

end TraceExport.Spec.StepSources
