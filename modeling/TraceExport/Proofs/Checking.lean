import TraceExport.Proofs.Validation
import TraceExport.Proofs.Writing

/-!
The check that writes nothing. It makes the same decisions on the same records as an
export does first, so an export fails as the check says. It does not replay the
records: what it lets pass can still fail, but then by another fault than a missing
locator, or in writing (`check_foresees_run`).
-/

namespace TraceExport.Export

open Trace Replay

theorem run_check (cwd : Path) (runId : String) (spec : Path) (d : Disk) :
    (check cwd runId spec : StateM Disk _) d =
      (match recordsIn cwd spec (d.readText (Trace.path cwd runId)) with
        | .error e => .error e
        | .ok records => validate records, d) := by
  simp only [check, bind, StateT.bind, run_loadRecords]
  cases recordsIn cwd spec (d.readText (Trace.path cwd runId)) <;> rfl

/-- The errors of a plan for some records; there is a plan if there are none. -/
def planFaults (o : Options) (records : List Record) : List Replay.Error :=
  Event.faults ((walk o.spec records o.sources o.context).flatMap Event.ofResult)

theorem plan_eq_planFaults {o : Options} {records : List Record} {errors : List Replay.Error} :
    plan o.spec records o.sources o.context = .error errors ↔
      errors = planFaults o records ∧ errors ≠ [] := by
  rw [plan_eq_error, errors_tally]
  rfl

/-- What is compiled is written, and writing fails only with the code for that. -/
theorem code_of_writeTest {o : Options} {content : String} {d : Disk} {e : Error}
    (h : ((writeTest o content : StateM Disk _) d).1 = .error e) : e.code = "WRITE_FAILED" := by
  rw [run_writeTest] at h
  split at h
  · cases h
    rfl
  · split at h
    · cases h
      rfl
    · cases h

/-- A fault of an accepted trace is a record of a step that lacks something else than
a locator, or a binding that two variables would have to share. -/
theorem of_mem_planFaults {o : Options} {records : List Record} (h : validate records = .ok ())
    {e : Replay.Error} (he : e ∈ planFaults o records) :
    (∃ step ∈ o.spec.steps, ∃ r ∈ recordsOfStep records step.index, ∃ c, c ≠ .noLocator ∧
      Fails r (o.context.ofStep o.sources step) c ∧ e = Error.of r c) ∨
        ∃ r first var, e = Error.of r (.sharedName first var (Script.variableName var)) := by
  refine (of_mem_faults_walk he).imp_left ?_
  rintro ⟨step, hstep, r, hr, c, hfails, rfl⟩
  refine ⟨step, hstep, r, hr, c, ?_, hfails, rfl⟩
  rintro rfl
  have hplan := plan_eq_planFaults.2 ⟨rfl, List.ne_nil_of_mem he⟩
  exact message_ne_of_validate h hplan _ he rfl

theorem run_eq_of_check_error {o : Options} {d : Disk} {e : Error}
    (h : ((check o.cwd o.runId o.specPath : StateM Disk _) d).1 = .error e) :
    (run o : StateM Disk _) d = (.error e, d) := by
  rw [run_check] at h
  rw [run_eq]
  cases hload : recordsIn o.cwd o.specPath (d.readText (Trace.path o.cwd o.runId)) with
  | error e' =>
      rw [hload] at h
      cases h
      rfl
  | ok records =>
      rw [hload] at h
      simp only [compile_eq_error.2 (.inl h)]

theorem of_check_eq_ok {o : Options} {d : Disk}
    (h : ((check o.cwd o.runId o.specPath : StateM Disk _) d).1 = .ok ()) : ∃ records,
    recordsIn o.cwd o.specPath (d.readText (Trace.path o.cwd o.runId)) = .ok records ∧
      validate records = .ok () := by
  rw [run_check] at h
  cases hload : recordsIn o.cwd o.specPath (d.readText (Trace.path o.cwd o.runId)) with
  | error e =>
      rw [hload] at h
      cases h
  | ok records =>
      rw [hload] at h
      exact ⟨records, rfl, h⟩

section

variable {o : Options} {d : Disk} {records : List Record}
  (hload : recordsIn o.cwd o.specPath (d.readText (Trace.path o.cwd o.runId)) = .ok records)
  (hvalid : validate records = .ok ())

include hload hvalid

theorem run_eq_of_faults (h : planFaults o records ≠ []) :
    (run o : StateM Disk _) d = (.error (.replay (planFaults o records)), d) := by
  have hplan := plan_eq_planFaults.2 ⟨rfl, h⟩
  rw [run_eq, hload]
  simp only [compile_eq_error.2 (.inr ⟨hvalid, _, hplan, rfl⟩)]

theorem code_of_run (h : planFaults o records = []) {e : Error}
    (hrun : ((run o : StateM Disk _) d).1 = .error e) : e.code = "WRITE_FAILED" := by
  rw [run_eq, hload] at hrun
  cases hplan : plan o.spec records o.sources o.context with
  | error errors =>
      obtain ⟨rfl, hne⟩ := plan_eq_planFaults.1 hplan
      exact absurd h hne
  | ok p =>
      simp only [compile_eq_ok.2 ⟨hvalid, p, hplan, rfl⟩] at hrun
      exact code_of_writeTest hrun

end

/-- Where the check says that an export is not possible, the export fails with the
same code and the same list of actions, and nothing is written by the check. Where it
says that it is possible, the export fails with the faults of the plan if there are
any, none of which is a missing locator, and otherwise fails only in writing. -/
theorem check_foresees_run (o : Options) (d : Disk) :
    let checked := (check o.cwd o.runId o.specPath : StateM Disk _) d
    let foreseen := Exportability.ofResult checked.1
    let exported := ((run o : StateM Disk _) d).1
    let outcome := Outcome.ofResult exported
    checked.2 = d ∧
    (foreseen.exportable = false → outcome.ok = false ∧ outcome.code = foreseen.code ∧
      outcome.missing = foreseen.missing) ∧
    (foreseen.exportable = true → ∃ records,
      (loadRecords o.cwd o.runId o.specPath : StateM Disk _) d = (.ok records, d) ∧
      (planFaults o records ≠ [] → exported = .error (.replay (planFaults o records))) ∧
      (planFaults o records = [] → ∀ e, exported = .error e → e.code = "WRITE_FAILED") ∧
      ∀ e ∈ planFaults o records,
        (∃ step ∈ o.spec.steps, ∃ r ∈ recordsOfStep records step.index, ∃ c, c ≠ .noLocator ∧
          Fails r (o.context.ofStep o.sources step) c ∧ e = Error.of r c) ∨
            ∃ r first var, e = Error.of r (.sharedName first var (Script.variableName var))) := by
  intro checked foreseen exported outcome
  have hdisk : checked.2 = d := congrArg Prod.snd (run_check o.cwd o.runId o.specPath d)
  refine ⟨hdisk, ?_⟩
  cases hcheck : checked.1 with
  | error e =>
      have hrun : exported = .error e := congrArg Prod.fst (run_eq_of_check_error hcheck)
      have hforeseen : foreseen = Exportability.ofResult (.error e) := by rw [← hcheck]
      have houtcome : outcome = Outcome.ofResult (.error e) := by rw [← hrun]
      rw [hforeseen, houtcome]
      exact ⟨fun _ => ⟨rfl, rfl, rfl⟩, by rintro ⟨⟩⟩
  | ok u =>
      have hforeseen : foreseen = Exportability.ofResult (.ok ()) := by rw [← hcheck]
      obtain ⟨records, hload, hvalid⟩ := of_check_eq_ok hcheck
      rw [hforeseen]
      refine ⟨by rintro ⟨⟩, fun _ => ⟨records, by rw [run_loadRecords, hload], fun hfaults => ?_,
        fun hnone e hrun => ?_, fun e => of_mem_planFaults hvalid⟩⟩
      · exact congrArg Prod.fst (run_eq_of_faults hload hvalid hfaults)
      · exact code_of_run hload hvalid hnone hrun

/-- The project with another trace. -/
def projectWith (trace : String) : Disk :=
  projectDisk.put ["ir.jsonl", "r", "runs", ".autoqa", "p"]
    (.file (Text.Utf8.encode trace.toList))

/-- A trace with one record, of a page that is opened at no address. -/
def lostTrace : String :=
  "\x7b\"specPath\":\"a.md\",\"stepIndex\":1,\"toolName\":\"navigate\"," ++
    "\"outcome\":\x7b\"ok\":true\x7d\x7d"

/-- The options of an export of `a.md`, which has this text. -/
def optionsOf (text : String) : Options :=
  { scrollOptions with spec := Spec.ofMarkdown text, rawSpec := some text }

/-- The address is missing, and the check does not see it. -/
theorem planFaults_lost :
    let o := optionsOf "## Steps\n1. Open the page"
    ((check o.cwd o.runId o.specPath : StateM Disk _) (projectWith lostTrace)).1 = .ok () ∧
    ((loadRecords o.cwd o.runId o.specPath : StateM Disk _)
      (projectWith lostTrace)).1.toOption.map (planFaults o) =
        some [⟨some 1, .navigate, .noUrl⟩] := by
  decide +kernel

theorem check_foresees_run_lost :
    let o := optionsOf "## Steps\n1. Open the page"
    ((Exportability.ofResult
        ((check o.cwd o.runId o.specPath : StateM Disk _) ⟨[], 0⟩).1).exportable = false ∧
      (Outcome.ofResult ((run o : StateM Disk _) ⟨[], 0⟩).1).code = some "IR_READ_FAILED") ∧
    (Exportability.ofResult ((check o.cwd o.runId o.specPath : StateM Disk _)
        (projectWith lostTrace)).1).exportable = true ∧
      ((run o : StateM Disk _) (projectWith lostTrace)).1 =
        .error (.replay [⟨some 1, .navigate, .noUrl⟩]) := by
  intro o
  constructor
  · have hrefused : Exportability.ofResult ((check o.cwd o.runId o.specPath : StateM Disk _)
        ⟨[], 0⟩).1 = ⟨false,
          some "Failed to read IR file: IO error: No such file or directory (os error 2)",
          some "IR_READ_FAILED", []⟩ := by decide +kernel
    obtain ⟨-, hfails, -⟩ := check_foresees_run o ⟨[], 0⟩
    rw [hrefused] at hfails ⊢
    exact ⟨rfl, (hfails rfl).2.1⟩
  · obtain ⟨hcheck, hfound⟩ := planFaults_lost
    obtain ⟨-, -, hpasses⟩ := check_foresees_run o (projectWith lostTrace)
    rw [hcheck] at hpasses ⊢
    obtain ⟨records, hload, hfaults, -⟩ := hpasses rfl
    rw [hload] at hfound
    have hplan : planFaults o records = [⟨some 1, .navigate, .noUrl⟩] := Option.some.inj hfound
    rw [hplan] at hfaults
    exact ⟨rfl, hfaults (by simp)⟩

/-- An export fails where the check has said that it is possible: the address of a
page is asked for only by code generation. -/
theorem check_misses_address :
    let o := optionsOf "## Steps\n1. Open the page"
    (Exportability.ofResult ((check o.cwd o.runId o.specPath : StateM Disk _)
      (projectWith lostTrace)).1).exportable = true ∧
    (Outcome.ofResult ((run o : StateM Disk _) (projectWith lostTrace)).1).code =
      some "CODEGEN_ERROR" := by
  intro o
  obtain ⟨hcheck, hfound⟩ := planFaults_lost
  obtain ⟨records, hload, hvalid⟩ := of_check_eq_ok hcheck
  rw [run_loadRecords, hload] at hfound
  have hplan : planFaults o records = [⟨some 1, .navigate, .noUrl⟩] := Option.some.inj hfound
  have hfaults : planFaults o records ≠ [] := by simp [hplan]
  rw [hcheck, run_eq_of_faults hload hvalid hfaults]
  exact ⟨rfl, rfl⟩

end TraceExport.Export
