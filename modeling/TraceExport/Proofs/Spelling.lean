import TraceExport.Export.Location
import TraceExport.Files.Disk
import TraceExport.Proofs.Shown
import TraceExport.Trace.Store

/-!
The two spellings of a path. A path may be recorded from the root of the project or from the
root of the file system, and both lead to one place (`resolve_inProject`). So it does not
matter which of them names a specification, nor which of them a record has
(`readForSpec_inProject`).
-/

namespace TraceExport.Path

/-- What is below the normal form of a directory is reached from the directory itself. -/
theorem normalize_join_below {cwd p q : Path} (hcwd : cwd.isAbsolute = true)
    (hp : p.isAbsolute = true) (hq : q.isAbsolute = false)
    (h : p.normalize.components = cwd.normalize.components ++ q.components) :
    (cwd.join q).normalize = p.normalize := by
  have hway := congrArg way h
  rw [way_append, way_normalize, way_normalize, Way.ext_iff] at hway
  obtain ⟨hup, hdown⟩ := hway
  simp only [Way.up_andThen, Way.down_andThen] at hup hdown
  rw [normalize_eq_iff, isAbsolute_join hcwd, way_join hcwd hq, hp]
  refine ⟨rfl, ?_, hdown.symm⟩
  rw [Way.up_andThen]
  omega

/-- What is below a directory is told by a relative path. -/
theorem of_relativeTo?_normalize {cwd p q : Path} (hcwd : cwd.isAbsolute = true)
    (h : relativeTo? cwd.normalize p.normalize = some q) :
    q.isAbsolute = false ∧ p.normalize.components = cwd.normalize.components ++ q.components := by
  obtain ⟨rest, hrest, rfl⟩ := Option.map_eq_some_iff.1 h
  have hcomponents := below?_eq_some.1 hrest
  obtain ⟨absolute, up, names, rfl, hnames, habsolute⟩ := exists_rest_eq_plain hcomponents
  have hroot : .root ∈ cwd.normalize.components :=
    isAbsolute_iff.1 (by rw [isAbsolute_normalize, hcwd])
  obtain rfl : absolute = false := by
    refine Bool.eq_false_iff.2 fun htrue => ?_
    rw [(habsolute.1 htrue).2] at hroot
    cases hroot
  rw [Bool.eq_false_iff, Ne, isAbsolute_iff, components_ofComponents_plain hnames, root_mem_plain]
  exact ⟨Bool.false_ne_true, hcomponents⟩

/-- A path as it is recorded leads to where the path leads. -/
theorem resolve_inProject {cwd p : Path} (hcwd : cwd.isAbsolute = true)
    (hp : p.isAbsolute = true) : resolve cwd (inProject cwd p) = resolve cwd p := by
  have hsame : resolve cwd p = p.normalize := by rw [resolve, if_pos hp]
  rw [hsame, inProject]
  -- Outside the project a path is recorded as its normal form.
  cases hbelow : relativeTo? cwd.normalize p.normalize with
  | none => rw [Option.getD_none, resolve, isAbsolute_normalize, if_pos hp, normalize_normalize]
  | some q =>
      obtain ⟨hq, hcomponents⟩ := of_relativeTo?_normalize hcwd hbelow
      rw [Option.getD_some, resolve_relative hq, normalize_join_below hcwd hp hq hcomponents]

/-- A resolved path is given by its components. -/
theorem components_resolve_inj {cwd p q : Path} :
    (resolve cwd p).components = (resolve cwd q).components ↔ resolve cwd p = resolve cwd q := by
  constructor
  · intro h
    rw [← normalize_resolve cwd p, ← normalize_resolve cwd q, normalize, normalize, h]
  · exact congrArg components

end TraceExport.Path

namespace TraceExport.Export

open TraceExport.Path

/-- Paths that resolve alike name the same test. -/
theorem fileName_congr {cwd p q : Path} (h : resolve cwd p = resolve cwd q) :
    fileName cwd p = fileName cwd q := by
  have hpath : pathInProject cwd p = pathInProject cwd q := by
    unfold pathInProject
    rw [h]
  unfold fileName
  rw [hpath]

end TraceExport.Export

namespace TraceExport.Trace

open TraceExport.Path

theorem Record.isFor_iff {cwd spec : Path} {r : Record} :
    r.isFor cwd spec = true ↔ resolve cwd ⟨r.specPath⟩ = resolve cwd spec := by
  rw [Record.isFor, beq_iff_eq, components_resolve_inj]

/-- Paths that resolve alike select the same records. -/
theorem isFor_congr {cwd p q : Path} (h : resolve cwd p = resolve cwd q) :
    Record.isFor cwd p = Record.isFor cwd q := by
  funext r
  rw [Record.isFor, Record.isFor, h]

theorem readForSpec_run (cwd : Path) (runId : String) (spec : Path) (d : Disk) :
    ((readForSpec cwd runId spec : StateM Disk _) d).1 =
      ((readAll cwd runId : StateM Disk _) d).1.map (List.filter (Record.isFor cwd spec)) := by
  simp only [readForSpec, bind, StateT.bind]
  generalize (readAll cwd runId : StateM Disk _) d = r
  rfl

/-- The path of a specification and its path in the project lead to one place. They select the
same records of every trace, in its order, and a record has either of them; the test is named
alike for both. -/
theorem readForSpec_inProject {cwd p : Path} (hcwd : cwd.isAbsolute = true)
    (hp : p.isAbsolute = true) :
    resolve cwd (inProject cwd p) = resolve cwd p ∧
      (∀ runId d, (readForSpec cwd runId (inProject cwd p) : StateM Disk _) d =
          (readForSpec cwd runId p : StateM Disk _) d ∧
        ((readForSpec cwd runId p : StateM Disk _) d).1 =
          ((readAll cwd runId : StateM Disk _) d).1.map
            (List.filter fun r => resolve cwd ⟨r.specPath⟩ = resolve cwd p)) ∧
      (∀ records : List Record, ∀ r ∈ records,
        r.specPath = p.text ∨ r.specPath = (inProject cwd p).text →
          r ∈ records.filter fun r => resolve cwd ⟨r.specPath⟩ = resolve cwd p) ∧
      Export.fileName cwd (inProject cwd p) = Export.fileName cwd p := by
  have hsame := resolve_inProject hcwd hp
  refine ⟨hsame, fun runId d => ⟨?_, ?_⟩, fun records r hr hpath => ?_, ?_⟩
  · unfold readForSpec
    rw [isFor_congr hsame]
  · have hfor : Record.isFor cwd p = fun r => decide (resolve cwd ⟨r.specPath⟩ = resolve cwd p) := by
      funext r
      exact Bool.eq_iff_iff.2 (Record.isFor_iff.trans (decide_eq_true_iff).symm)
    rw [readForSpec_run, hfor]
  · refine List.mem_filter.2 ⟨hr, decide_eq_true ?_⟩
    rcases hpath with hpath | hpath
    · rw [hpath]
    · rw [hpath, hsame]
  · exact Export.fileName_congr hsame

theorem readForSpec_inProject_login :
    (⟨"/work/./project"⟩ : Path).isAbsolute = true ∧
      (⟨"/work/project/specs/../login.md"⟩ : Path).isAbsolute = true ∧
      inProject ⟨"/work/./project"⟩ ⟨"/work/project/specs/../login.md"⟩ = ⟨"login.md"⟩ ∧
      resolve ⟨"/work/./project"⟩ ⟨"login.md"⟩ =
        resolve ⟨"/work/./project"⟩ ⟨"/work/project/specs/../login.md"⟩ ∧
      (∀ d, (readForSpec ⟨"/work/./project"⟩ "run-1" ⟨"login.md"⟩ : StateM Disk _) d =
        (readForSpec ⟨"/work/./project"⟩ "run-1" ⟨"/work/project/specs/../login.md"⟩ :
          StateM Disk _) d) ∧
      Export.fileName ⟨"/work/./project"⟩ ⟨"login.md"⟩ =
        Export.fileName ⟨"/work/./project"⟩ ⟨"/work/project/specs/../login.md"⟩ := by
  have hcwd : (⟨"/work/./project"⟩ : Path).isAbsolute = true := by decide
  have hp : (⟨"/work/project/specs/../login.md"⟩ : Path).isAbsolute = true := by decide
  have hbelow : inProject ⟨"/work/./project"⟩ ⟨"/work/project/specs/../login.md"⟩ =
      ⟨"login.md"⟩ := by decide +kernel
  obtain ⟨hsame, hread, -, hname⟩ := readForSpec_inProject hcwd hp
  rw [hbelow] at hsame hread hname
  exact ⟨hcwd, hp, hbelow, hsame, fun d => (hread "run-1" d).1, hname⟩

end TraceExport.Trace
