import TraceExport.Proofs.Walk

/-!
Why a record cannot be replayed, one rule for each thing that a tool needs (`Fails`).
The locator comes first: only a tool that acts on an element asks for it, and it
asks for nothing else as long as the locator is missing. The errors of a plan are the
failures of records, and bindings that two variables would have to share.
-/

namespace TraceExport.Replay

open Script Spec Trace

theorem demand_bind_eq_error {α β : Type} {cause c : Cause} {x : Option α}
    {f : α → Except Cause β} :
    (demand cause x >>= f) = .error c ↔
      (x = none ∧ c = cause) ∨ ∃ a, x = some a ∧ f a = .error c := by
  cases x with
  | none => simp [demand, bind, Except.bind, eq_comm]
  | some a => simp [demand, bind, Except.bind]

/-- What is typed cannot be written only if it is a variable with a bad name. -/
theorem fillWith_eq_error {ctx : Context} {locator : String} {value : Option FillValue}
    {c : Cause} : fillWith ctx locator value = .error c ↔
      ∃ name, value = some (.ofVariable name) ∧ Placeholder.isName name = false ∧
        c = .badVariable name := by
  unfold fillWith
  split
  · rename_i name
    split
    · rename_i hname
      simp [hname]
    · rename_i hname
      constructor
      · rintro ⟨⟩
        exact ⟨name, rfl, by simpa using hname, rfl⟩
      · rintro ⟨_, ⟨⟩, -, rfl⟩
        rfl
  · simp
  · split <;> simp
  · simp

/-- The reasons why a record cannot be replayed, and what each of them rests on. -/
inductive Fails (r : Record) (ctx : Context) : Cause → Prop where
  | locator (htool : r.tool.needsLocator) (hnone : r.locatorCode? = none) :
      Fails r ctx .noLocator
  | url (htool : r.tool = .navigate) (hnone : target? ctx r.input.url? = none) :
      Fails r ctx .noUrl
  | label (htool : r.tool = .selectOption) (hlocator : r.hasLocator)
      (hnone : r.input.label? = none) : Fails r ctx .noLabel
  | text (htool : r.tool = .assertText) (hnone : asserted? ctx r.input.expectedText? = none) :
      Fails r ctx .noText
  | seconds (htool : r.tool = .wait) (hnone : r.input.seconds? = none) :
      Fails r ctx .noSeconds
  | name {name : String} (htool : r.tool = .fill) (hlocator : r.hasLocator)
      (hvalue : r.input.fillValue? = some (.ofVariable name))
      (hname : Placeholder.isName name = false) : Fails r ctx (.badVariable name)

theorem hasLocator_iff {r : Record} : r.hasLocator ↔ ∃ code, r.locatorCode? = some code :=
  Option.isSome_iff_exists

theorem fails_of_statement {r : Record} {ctx : Context} {c : Cause}
    (h : statement r ctx = .error c) : Fails r ctx c := by
  unfold statement at h
  cases htool : r.tool with rw [htool] at h
  | navigate =>
      obtain ⟨hnone, rfl⟩ | ⟨target, -, ⟨⟩⟩ := demand_bind_eq_error.1 h
      exact .url htool hnone
  | click =>
      obtain ⟨hnone, rfl⟩ | ⟨locator, -, ⟨⟩⟩ := demand_bind_eq_error.1 h
      exact .locator (by rw [htool]; rfl) hnone
  | fill =>
      obtain ⟨hnone, rfl⟩ | ⟨locator, hlocator, hfill⟩ := demand_bind_eq_error.1 h
      · exact .locator (by rw [htool]; rfl) hnone
      · obtain ⟨name, hvalue, hname, rfl⟩ := fillWith_eq_error.1 hfill
        exact .name htool (hasLocator_iff.2 ⟨locator, hlocator⟩) hvalue hname
  | selectOption =>
      obtain ⟨hnone, rfl⟩ | ⟨locator, hlocator, hrest⟩ := demand_bind_eq_error.1 h
      · exact .locator (by rw [htool]; rfl) hnone
      · obtain ⟨hnone, rfl⟩ | ⟨label, -, ⟨⟩⟩ := demand_bind_eq_error.1 hrest
        exact .label htool (hasLocator_iff.2 ⟨locator, hlocator⟩) hnone
  | assertText =>
      obtain ⟨hnone, rfl⟩ | ⟨text, -, ⟨⟩⟩ := demand_bind_eq_error.1 h
      exact .text htool hnone
  | assertElement =>
      obtain ⟨hnone, rfl⟩ | ⟨locator, -, ⟨⟩⟩ := demand_bind_eq_error.1 h
      exact .locator (by rw [htool]; rfl) hnone
  | scroll => cases h
  | wait =>
      obtain ⟨hnone, rfl⟩ | ⟨seconds, -, ⟨⟩⟩ := demand_bind_eq_error.1 h
      exact .seconds htool hnone
  | other tool => cases h

theorem Fails.statement_eq {r : Record} {ctx : Context} {c : Cause} (h : Fails r ctx c) :
    statement r ctx = .error c := by
  unfold statement
  cases h with
  | locator hneeds hnone =>
      cases htool : r.tool with rw [htool] at hneeds
      | click => exact demand_bind_eq_error.2 (.inl ⟨hnone, rfl⟩)
      | fill => exact demand_bind_eq_error.2 (.inl ⟨hnone, rfl⟩)
      | selectOption => exact demand_bind_eq_error.2 (.inl ⟨hnone, rfl⟩)
      | assertElement => exact demand_bind_eq_error.2 (.inl ⟨hnone, rfl⟩)
      | _ => cases hneeds
  | url htool hnone =>
      rw [htool]
      exact demand_bind_eq_error.2 (.inl ⟨hnone, rfl⟩)
  | label htool hlocator hnone =>
      obtain ⟨locator, hlocator⟩ := hasLocator_iff.1 hlocator
      rw [htool]
      exact demand_bind_eq_error.2
        (.inr ⟨locator, hlocator, demand_bind_eq_error.2 (.inl ⟨hnone, rfl⟩)⟩)
  | text htool hnone =>
      rw [htool]
      exact demand_bind_eq_error.2 (.inl ⟨hnone, rfl⟩)
  | seconds htool hnone =>
      rw [htool]
      exact demand_bind_eq_error.2 (.inl ⟨hnone, rfl⟩)
  | name htool hlocator hvalue hname =>
      obtain ⟨locator, hlocator⟩ := hasLocator_iff.1 hlocator
      rw [htool]
      exact demand_bind_eq_error.2
        (.inr ⟨locator, hlocator, fillWith_eq_error.2 ⟨_, hvalue, hname, rfl⟩⟩)

theorem statement_eq_error {r : Record} {ctx : Context} {c : Cause} :
    statement r ctx = .error c ↔ Fails r ctx c :=
  ⟨fails_of_statement, Fails.statement_eq⟩

theorem generate_eq_error {r : Record} {ctx : Context} {e : Error} :
    generate r ctx = .error e ↔ ∃ c, Fails r ctx c ∧ e = Error.of r c := by
  simp only [← statement_eq_error]
  unfold generate
  cases statement r ctx with
  | error c => simp [Except.mapError, eq_comm]
  | ok s => simp [Except.mapError]

/-! ### Messages -/

theorem append_ne {a b s : String} (hne : a.toList ≠ [])
    (hhead : a.toList.head? ≠ b.toList.head?) : a ++ s ≠ b := by
  rintro rfl
  apply hhead
  rw [String.toList_append, List.head?_append_of_ne_nil _ hne]

theorem message_badVariable (name : String) : (Cause.badVariable name).message =
    "invalid template variable name '" ++ Text.flattenLine name ++ "'" := rfl

theorem message_sharedName (first second binding : String) :
    (Cause.sharedName first second binding).message = "variables " ++ first ++ " and " ++ second ++
      " map to the same identifier '" ++ binding ++ "'" := rfl

/-- Only a missing locator is said to be one. -/
theorem Fails.message_eq_iff {r : Record} {ctx : Context} {c : Cause} (h : Fails r ctx c) :
    c.message = "missing valid chosenLocator" ↔ c = .noLocator := by
  cases h with
  | locator => exact ⟨fun _ => rfl, fun _ => rfl⟩
  | @name name =>
      refine ⟨fun hmessage => absurd hmessage ?_, by rintro ⟨⟩⟩
      rw [message_badVariable, String.append_assoc]
      exact append_ne (by simp) (by simp)
  | _ => exact ⟨fun hmessage => absurd hmessage (by decide), by rintro ⟨⟩⟩

theorem message_sharedName_ne (first second binding : String) :
    (Cause.sharedName first second binding).message ≠ "missing valid chosenLocator" := by
  simp only [message_sharedName, String.append_assoc]
  exact append_ne (by simp) (by simp)

/-! ### Faults -/

theorem of_mem_faults {es : List Event} {e : Error} (h : e ∈ Event.faults es) :
    .failure e ∈ es ∨ ∃ r first var, e = Error.of r (.sharedName first var (variableName var)) := by
  obtain ⟨⟨event, i⟩, hevent, hfault⟩ := List.mem_filterMap.1 h
  have hmem : event ∈ es := List.mem_of_getElem? (List.mem_zipIdx_iff_getElem?.1 hevent)
  cases event with
  | failure e' =>
      obtain rfl : e' = e := by simpa [Event.fault?] using hfault
      exact .inl hmem
  | need r var =>
      obtain ⟨first, -, rfl⟩ := Option.map_eq_some_iff.1 hfault
      exact .inr ⟨r, first, var, rfl⟩

/-- An error of a plan is the failure of a record of one of its steps, or a binding
that two variables would have to share. -/
theorem of_mem_faults_walk {spec : Spec} {records : List Record} {sources : StepSources}
    {base : Context} {e : Error}
    (h : e ∈ Event.faults ((walk spec records sources base).flatMap Event.ofResult)) :
    (∃ step ∈ spec.steps, ∃ r ∈ recordsOfStep records step.index, ∃ c,
      Fails r (base.ofStep sources step) c ∧ e = Error.of r c) ∨
        ∃ r first var, e = Error.of r (.sharedName first var (variableName var)) := by
  refine (of_mem_faults h).imp_left fun hfailure => ?_
  obtain ⟨⟨r, result⟩, hresult, hevent⟩ := List.mem_flatMap.1 hfailure
  obtain ⟨step, hstep, hr⟩ := List.mem_flatMap.1 hresult
  obtain ⟨r', hr', heq⟩ := List.mem_map.1 hr
  obtain ⟨rfl, rfl⟩ : r' = r ∧ generate r' (base.ofStep sources step) = result := by
    simpa using heq
  cases hgenerate : generate r' (base.ofStep sources step) with
  | ok s =>
      rw [hgenerate] at hevent
      simp [Event.ofResult] at hevent
  | error e' =>
      rw [hgenerate] at hevent
      obtain rfl : e = e' := by simpa [Event.ofResult] using hevent
      exact ⟨step, hstep, r', hr', generate_eq_error.1 hgenerate⟩

end TraceExport.Replay
