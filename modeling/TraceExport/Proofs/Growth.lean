import TraceExport.Proofs.Location
import TraceExport.Proofs.Writing

/-!
What an export leaves as it is, whether it succeeds or not. One that fails only makes
directories; one that succeeds makes directories and changes one file. In both cases
the trace reads as before (`readText_trace_run`), and so does every file that has not
the name of the test (`file_of_run`).
-/

namespace TraceExport.Disk

/-! ### Growing -/

/-- Nothing changes but that directories are made where there was nothing. -/
def Grows (d d' : Disk) : Prop :=
  ∀ q, d'.node? q = d.node? q ∨ d.node? q = none ∧ d'.node? q = some .directory

theorem Grows.refl (d : Disk) : Grows d d := fun _ => .inl rfl

theorem Grows.node? {d d' : Disk} (h : Grows d d') {q : Place} {node : Node}
    (hq : d.node? q = some node) : d'.node? q = some node := by
  obtain heq | ⟨hnone, -⟩ := h q
  · rw [heq, hq]
  · rw [hnone] at hq
    cases hq

theorem Grows.keeps {d d' : Disk} (h : Grows d d') : KeepsDirectories d d' := fun _ => h.node?

theorem Grows.trans {d₁ d₂ d₃ : Disk} (h₁ : Grows d₁ d₂) (h₂ : Grows d₂ d₃) : Grows d₁ d₃ := by
  intro q
  obtain heq | ⟨hnone, hmade⟩ := h₁ q
  · rw [← heq]
    exact h₂ q
  · exact .inr ⟨hnone, h₂.node? hmade⟩

theorem grows_makeOne {d d' : Disk} {place : Place} {last : Bool}
    (h : d.makeOne place last = .ok d') : Grows d d' := by
  obtain ⟨hplace, hsame⟩ := node?_makeOne h
  intro q
  obtain heq | ⟨rfl, hnone⟩ := hsame q
  · exact .inl heq
  · exact .inr ⟨hnone, hplace⟩

theorem grows_makeFrom (d : Disk) (start : Place) (cs : List Component) :
    Grows d (d.makeFrom start cs).2 := by
  induction cs generalizing d start with
  | nil => exact .refl d
  | cons c cs ih =>
      rw [makeFrom]
      split
      · exact .refl d
      · split
        · exact .refl d
        · rename_i d₁ hone
          exact (grows_makeOne hone).trans (ih d₁ _)

theorem grows_makeDirectory (d : Disk) (p : Path) : Grows d (d.makeDirectory p).2 := by
  unfold makeDirectory
  split
  · exact .refl d
  · exact grows_makeFrom d [] _

theorem writeText_eq_error {d d' : Disk} {p : Path} {text : String} {e : FileError}
    (h : d.writeText p text = (.error e, d')) : d' = d := by
  unfold writeText at h
  split at h
  · exact (Prod.mk.inj h).2.symm
  · split at h
    · exact (Prod.mk.inj h).2.symm
    · split at h
      · cases (Prod.mk.inj h).1
      · exact (Prod.mk.inj h).2.symm
      · exact (Prod.mk.inj h).2.symm

theorem Grows.readText {d d' : Disk} (h : Grows d d') {p : Path} {text : String}
    (hread : d.readText p = .ok text) : d'.readText p = .ok text := by
  obtain ⟨q, bytes, hplace, hnode, hsame⟩ := readText_eq_ok hread
  exact hsame d' (place_of_keeps h.keeps hplace) (h.node? hnode)

end TraceExport.Disk

namespace TraceExport.Export

open Disk

theorem fileName_eq_of_path_eq {cwd spec spec' : Path} {dir : Option Path}
    (h : path cwd spec dir = path cwd spec' dir) : fileName cwd spec = fileName cwd spec' := by
  have hcomponents := congrArg Path.components h
  rw [components_path, components_path] at hcomponents
  have hlast := List.append_cancel_left hcomponents
  exact Component.normal.inj (List.head_eq_of_cons_eq hlast)

theorem path_eq_of_fileName_eq {cwd spec spec' : Path} {dir : Option Path}
    (h : fileName cwd spec = fileName cwd spec') : path cwd spec dir = path cwd spec' dir := by
  rw [path, path, h]

/-! ### One export -/

section

variable {o : Options} {d d' : Disk}

theorem grows_of_run_error {e : Error} (h : (run o : StateM Disk _) d = (.error e, d')) :
    Grows d d' := by
  rw [run_eq] at h
  split at h
  · cases h
    exact .refl d
  · split at h
    · cases h
      exact .refl d
    · rw [run_writeTest] at h
      have hmade := grows_makeDirectory d (directory o.cwd o.exportDir)
      split at h
      · rename_i d₁ hmake
        cases h
        rwa [hmake] at hmade
      · rename_i d₁ hmake
        rw [hmake] at hmade
        split at h
        · rename_i d₂ hwrite
          cases h
          rwa [writeText_eq_error hwrite]
        · cases h

/-- What is compiled for a specification, given what reading the trace gave. -/
def compiledFrom? (o : Options) (read : Except FileError String) : Option String :=
  (recordsIn o.cwd o.specPath read).toOption.bind fun records => (compile o records).toOption

/-- What the test for a specification holds by itself, if it can be compiled. -/
def compiled? (o : Options) (d : Disk) : Option String :=
  ((loadRecords o.cwd o.runId o.specPath : StateM Disk _) d).1.toOption.bind fun records =>
    (compile o records).toOption

/-- It depends on the disk by the trace alone. -/
theorem compiled?_eq (o : Options) (d : Disk) :
    compiled? o d = compiledFrom? o (d.readText (Trace.path o.cwd o.runId)) := by
  rw [compiled?, run_loadRecords, compiledFrom?]

theorem wrote_of_run {w : Written} (h : (run o : StateM Disk _) d = (.ok w, d')) :
    w = ⟨path o.cwd o.specPath o.exportDir, shownPath o.cwd o.specPath o.exportDir⟩ ∧
      ∃ content dir, compiled? o d = some content ∧ Wrote o content d d' dir := by
  obtain ⟨records, content, hload, hcompile, hwrite⟩ := run_eq_ok.1 h
  obtain ⟨dir, hwrote⟩ := wrote_of_writeTest hwrite
  refine ⟨(writeTest_eq_ok.1 hwrite).1, content, dir, ?_, hwrote⟩
  rw [compiled?_eq, compiledFrom?, hload]
  exact congrArg Except.toOption hcompile

/-- A specification that can be compiled is exported, if the test can be written. -/
theorem run_eq_of_compiled {content : String} (h : compiled? o d = some content) :
    (run o : StateM Disk _) d = (writeTest o content : StateM Disk _) d := by
  rw [compiled?_eq, compiledFrom?] at h
  rw [run_eq]
  cases hload : recordsIn o.cwd o.specPath (d.readText (Trace.path o.cwd o.runId)) with
  | error e => simp [hload, Except.toOption] at h
  | ok records => cases hcompile : compile o records with
    | error e => simp [hload, hcompile, Except.toOption] at h
    | ok compiled =>
        obtain rfl : compiled = content := by simpa [hload, hcompile, Except.toOption] using h
        simp only [hcompile]

theorem keepsDirectories_run (o : Options) (d : Disk) :
    KeepsDirectories d ((run o : StateM Disk _) d).2 := by
  rcases hrun : (run o : StateM Disk _) d with ⟨e | w, d'⟩
  · exact (grows_of_run_error hrun).keeps
  · obtain ⟨-, content, dir, -, hwrote⟩ := wrote_of_run hrun
    exact hwrote.keeps

/-- An export leaves the trace as it reads. -/
theorem readText_trace_run (o : Options) (d : Disk) :
    ((run o : StateM Disk _) d).2.readText (Trace.path o.cwd o.runId) =
      d.readText (Trace.path o.cwd o.runId) := by
  cases hread : d.readText (Trace.path o.cwd o.runId) with
  | error e =>
      have hsame : (run o : StateM Disk _) d = (.error (.unreadable (.file e)), d) := by
        rw [run_eq, hread]
        rfl
      rw [hsame, hread]
  | ok text =>
      rcases hrun : (run o : StateM Disk _) d with ⟨e | w, d'⟩
      · exact (grows_of_run_error hrun).readText hread
      · obtain ⟨-, content, dir, -, hwrote⟩ := wrote_of_run hrun
        exact hwrote.readText_trace hread

/-- A file stays unless a test of its name is written. -/
theorem file_of_run {name : String} {place : Place} {bytes : List UInt8}
    (hfile : d.node? (name :: place) = some (.file bytes))
    (hother : ∀ w, ((run o : StateM Disk _) d).1 = .ok w → fileName o.cwd o.specPath ≠ name) :
    ((run o : StateM Disk _) d).2.node? (name :: place) = some (.file bytes) := by
  rcases hrun : (run o : StateM Disk _) d with ⟨e | w, d'⟩
  · exact (grows_of_run_error hrun).node? hfile
  · obtain ⟨-, content, dir, -, hwrote⟩ := wrote_of_run hrun
    have hname : fileName o.cwd o.specPath ≠ name := hother w (by rw [hrun])
    have hne : name :: place ≠ fileName o.cwd o.specPath :: dir := by
      rintro ⟨⟩
      exact hname rfl
    obtain heq | ⟨hnone, -⟩ := hwrote.only _ hne
    · rw [heq, hfile]
    · rw [hnone] at hfile
      cases hfile

end

end TraceExport.Export
