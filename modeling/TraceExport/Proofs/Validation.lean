import TraceExport.Export.Basic
import TraceExport.Proofs.Failure

/-!
The check in front of code generation. The records that are listed for want of a
locator are those that code generation would stop at for the same reason, so once a
trace is accepted no plan is given up because of a locator (`locators_agree`). What is
compiled passed this check, and has a plan.
-/

namespace TraceExport.Trace

end TraceExport.Trace

namespace TraceExport.Export

open Trace Replay

/-! ### Locators -/

theorem exists_locatorError_iff {r : Record} {ctx : Context} :
    (∃ e, generate r ctx = .error e ∧ e.cause.message = "missing valid chosenLocator") ↔
      r.tool.needsLocator ∧ ¬ r.hasLocator := by
  constructor
  · rintro ⟨e, hgenerate, hmessage⟩
    obtain ⟨c, hfails, rfl⟩ := generate_eq_error.1 hgenerate
    obtain rfl : c = .noLocator := hfails.message_eq_iff.1 hmessage
    cases hfails with
    | locator htool hnone => exact ⟨htool, by simp [Record.hasLocator, hnone]⟩
  · rintro ⟨htool, hlocator⟩
    have hnone : r.locatorCode? = none := by simpa [Record.hasLocator] using hlocator
    exact ⟨_, generate_eq_error.2 ⟨_, .locator htool hnone, rfl⟩, rfl⟩

theorem validate_eq_ok {records : List Record} : validate records = .ok () ↔
    records ≠ [] ∧ ∀ r ∈ records, r.isOk → r.tool.needsLocator → r.hasLocator := by
  unfold validate missingLocators
  cases records with
  | nil => simp
  | cons r records => simp [List.filter_eq_nil_iff]

/-- No error of a plan for an accepted trace is for want of a locator. -/
theorem message_ne_of_validate {records : List Record} (h : validate records = .ok ())
    {spec : Spec} {sources : Spec.StepSources} {base : Context} {errors : List Replay.Error}
    (hplan : plan spec records sources base = .error errors) :
    ∀ e ∈ errors, e.cause.message ≠ "missing valid chosenLocator" := by
  intro e he hmessage
  rw [plan_eq_error, errors_tally] at hplan
  rw [hplan.1] at he
  obtain ⟨step, -, r, hr, c, hfails, rfl⟩ | ⟨r, first, var, rfl⟩ := of_mem_faults_walk he
  · obtain ⟨hmem, hkept⟩ := List.mem_filter.1 hr
    obtain ⟨hok, -⟩ : r.isOk ∧ r.step = some step.index := by simpa using hkept
    obtain ⟨htool, hlocator⟩ := exists_locatorError_iff.1
      ⟨_, generate_eq_error.2 ⟨c, hfails, rfl⟩, hmessage⟩
    exact hlocator ((validate_eq_ok.1 h).2 r hmem hok htool)
  · exact message_sharedName_ne _ _ _ hmessage

/-- The sources of the steps, from the specification as it was before its variables
got values. -/
def Options.sources (o : Options) : Spec.StepSources := (o.rawSpec.map Spec.stepSources).getD []

/-- What is known of all steps. -/
def Options.context (o : Options) : Context := ⟨o.baseUrl, o.loginBaseUrl, none⟩

theorem compile_eq (o : Options) (records : List Record) : compile o records =
    match validate records with
    | .error e => .error e
    | .ok () =>
      match plan o.spec records o.sources o.context with
      | .error errors => .error (.replay errors)
      | .ok p => .ok (testFile p (testName o.specPath.text)
          (helperImport o.cwd (o.exportDir.getD defaultDir))) := by
  unfold compile Options.sources Options.context
  cases validate records with
  | error e => rfl
  | ok u =>
      simp only [bind, Except.bind]
      cases plan o.spec records ((o.rawSpec.map Spec.stepSources).getD [])
        ⟨o.baseUrl, o.loginBaseUrl, none⟩ <;> rfl

theorem compile_eq_ok {o : Options} {records : List Record} {content : String} :
    compile o records = .ok content ↔ validate records = .ok () ∧
      ∃ p, plan o.spec records o.sources o.context = .ok p ∧
        content = testFile p (testName o.specPath.text)
          (helperImport o.cwd (o.exportDir.getD defaultDir)) := by
  rw [compile_eq]
  cases validate records with
  | error e => simp
  | ok u => cases plan o.spec records o.sources o.context <;> simp [eq_comm]

theorem compile_eq_error {o : Options} {records : List Record} {e : Error} :
    compile o records = .error e ↔ validate records = .error e ∨
      validate records = .ok () ∧ ∃ errors,
        plan o.spec records o.sources o.context = .error errors ∧ e = .replay errors := by
  rw [compile_eq]
  cases validate records with
  | error e => simp
  | ok u => cases plan o.spec records o.sources o.context <;> simp [eq_comm]

end TraceExport.Export
