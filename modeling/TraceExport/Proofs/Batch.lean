import TraceExport.Command.Basic
import TraceExport.Proofs.Growth

/-!
Exporting many specifications, one after the other. No export spoils the trace for
those after it, so each compiles what the trace held in the beginning. What a test
holds in the end is what the last specification with this name for its test gives
(`exportAll_keeps_last`), and all others with that name have lost theirs.
-/

namespace TraceExport.Text.Utf8

theorem encode_inj {s t : String} : encode s.toList = encode t.toList ↔ s = t := by
  refine ⟨fun h => ?_, fun h => by rw [h]⟩
  have hbytes : s.toList.utf8Encode = t.toList.utf8Encode := congrArg List.toByteArray h
  rwa [String.utf8Encode_toList, String.utf8Encode_toList, String.toByteArray_inj] at hbytes

end TraceExport.Text.Utf8

namespace TraceExport.Disk

theorem run_bind {α β : Type} {x : StateM Disk α} {f : α → StateM Disk β} {d d' : Disk} {r : α}
    (h : x d = (r, d')) : (x >>= f) d = f r d' := by
  simp only [bind, StateT.bind]
  rw [h]

theorem run_bind_of_unchanged {α β : Type} {x : StateM Disk α} {f : α → StateM Disk β} {d : Disk}
    (hx : (x d).2 = d) : (x >>= f) d = f (x d).1 d :=
  run_bind (Prod.ext rfl hx)

theorem unchanged_bind {α β : Type} {x : StateM Disk α} {f : α → StateM Disk β} {d : Disk}
    (hx : (x d).2 = d) (hf : ∀ a, (f a d).2 = d) : ((x >>= f) d).2 = d := by
  rw [run_bind_of_unchanged hx]
  exact hf _

end TraceExport.Disk

namespace TraceExport.Project

open Disk

/-! ### Finding specifications changes nothing -/

theorem disk_readSpecs (ps : List Path) (d : Disk) :
    ((readSpecs ps : StateM Disk _) d).2 = d := by
  induction ps with
  | nil => rfl
  | cons p ps ih =>
      refine unchanged_bind rfl fun text => ?_
      cases text with
      | error e => rfl
      | ok raw => exact unchanged_bind ih fun _ => rfl

theorem disk_specsBelow (dir : Path) (d : Disk) :
    ((specsBelow dir : StateM Disk _) d).2 = d := by
  refine unchanged_bind rfl fun files => ?_
  cases files with
  | error e => rfl
  | ok files => exact disk_readSpecs _ d

theorem disk_discover (cwd target : Path) (d : Disk) :
    ((discover cwd target : StateM Disk _) d).2 = d := by
  refine unchanged_bind rfl fun kind => ?_
  cases kind with
  | none => rfl
  | some kind =>
      cases kind with
      | directory => exact unchanged_bind (disk_specsBelow _ d) fun _ => rfl
      | file => exact unchanged_bind (disk_readSpecs _ d) fun _ => rfl

/-- Below a directory, the specifications are read in the order of their paths. -/
theorem discover_sorted {cwd target : Path} {d : Disk} {files : List Path}
    (hkind : d.kind? (Path.resolve cwd target) = some .directory)
    (hfiles : d.filesBelow (Path.resolve cwd target) = .ok files)
    (hsorted : (files.filter isMarkdown).Pairwise fun p q => p.sortsBefore q) :
    ((discover cwd target : StateM Disk _) d).1 =
      ((readSpecs (files.filter isMarkdown) : StateM Disk _) d).1.mapError
        (.unreadableDirectory (Path.shown cwd (Path.resolve cwd target))) := by
  have hdirectory : (FileSystem.kind? (Path.resolve cwd target) : StateM Disk _) d =
      (some .directory, d) := congrArg (·, d) hkind
  have hbelow : (FileSystem.filesBelow (Path.resolve cwd target) : StateM Disk _) d =
      (.ok files, d) := congrArg (·, d) hfiles
  simp only [discover, specsBelow, bind, StateT.bind, hdirectory, hbelow,
    List.mergeSort_of_pairwise hsorted]
  rfl

theorem disk_resolveRun (cwd : Path) (named : Option String) (d : Disk) :
    ((resolveRun cwd named : StateM Disk _) d).2 = d := by
  cases named with
  | some id => rfl
  | none =>
      refine unchanged_bind rfl fun entries => ?_
      cases entries with
      | error e => rfl
      | ok entries =>
          simp only
          cases latestRun? entries <;> rfl

end TraceExport.Project

namespace TraceExport.Command

open Project Report Disk
open Export (Options Written compiled? compiled?_eq fileName directory)

/-! ### One export after the other -/

/-- A specification with what exporting it gave. -/
abbrev ExportRow := SpecFile × Except Export.Error Written

/-- Exports some specifications in their order. -/
def exportEach (opts : SpecFile → Options) : List SpecFile → Disk → List ExportRow × Disk
  | [], d => ([], d)
  | spec :: specs, d =>
    let first := (Export.run (opts spec) : StateM Disk _) d
    let rest := exportEach opts specs first.2
    ((spec, first.1) :: rest.1, rest.2)

theorem run_mapM_export {β : Type} (opts : SpecFile → Options)
    (f : SpecFile → Except Export.Error Written → β) (specs : List SpecFile) (d : Disk) :
    (specs.mapM (fun spec => do
        let result ← Export.run (opts spec)
        pure (f spec result)) : StateM Disk _) d =
      ((exportEach opts specs d).1.map fun row => f row.1 row.2, (exportEach opts specs d).2) := by
  induction specs generalizing d with
  | nil => rfl
  | cons spec specs ih =>
      rcases hrun : (Export.run (opts spec) : StateM Disk _) d with ⟨result, d₁⟩
      rw [List.mapM_cons, exportEach, hrun, bind_assoc, run_bind hrun, pure_bind, run_bind (ih d₁)]
      rfl

/-- The name of the test for a specification. -/
def testFileName (cwd : Path) (spec : SpecFile) : String :=
  fileName cwd (Path.inProject cwd spec.path)

section

variable (cwd dir : Path) (runId : String) (a : ExportArguments) (spec : SpecFile)

@[simp] theorem cwd_exportOptions : (exportOptions cwd dir runId a spec).cwd = cwd := rfl

@[simp] theorem runId_exportOptions : (exportOptions cwd dir runId a spec).runId = runId := rfl

@[simp] theorem specPath_exportOptions :
    (exportOptions cwd dir runId a spec).specPath = Path.inProject cwd spec.path := by
  simp only [exportOptions]

@[simp] theorem exportDir_exportOptions :
    (exportOptions cwd dir runId a spec).exportDir = some dir := rfl

end

/-- The last specification whose test was written under a name. -/
def lastExported? (cwd : Path) (name : String) (rows : List ExportRow) : Option SpecFile :=
  ((rows.filter fun row =>
    row.2.toOption.isSome && testFileName cwd row.1 == name).getLast?).map Prod.fst

section

variable {cwd dir : Path} {runId : String} {a : ExportArguments}

theorem lastExported?_cons (name : String) (row : ExportRow) (rows : List ExportRow) :
    lastExported? cwd name (row :: rows) = (lastExported? cwd name rows).or
      (if row.2.toOption.isSome && testFileName cwd row.1 == name then some row.1 else none) := by
  unfold lastExported?
  rw [List.filter_cons]
  split
  · rw [List.getLast?_cons]
    cases (rows.filter fun row =>
      row.2.toOption.isSome && testFileName cwd row.1 == name).getLast? <;> rfl
  · rw [Option.or_none]

theorem mem_of_lastExported? {name : String} {rows : List ExportRow} {last : SpecFile}
    (h : lastExported? cwd name rows = some last) :
    ∃ w, (last, .ok w) ∈ rows ∧ testFileName cwd last = name := by
  obtain ⟨⟨spec, result⟩, hlast, rfl⟩ := Option.map_eq_some_iff.1 h
  obtain ⟨hmem, hkept⟩ := List.mem_filter.1 (List.mem_of_getLast? hlast)
  cases result with
  | error e => simp [Except.toOption] at hkept
  | ok w => exact ⟨w, hmem, by simpa [Except.toOption] using hkept⟩

theorem isSome_lastExported? {rows : List ExportRow} {spec : SpecFile} {w : Written}
    (h : (spec, .ok w) ∈ rows) : (lastExported? cwd (testFileName cwd spec) rows).isSome := by
  rw [lastExported?, Option.isSome_map, Option.isSome_iff_ne_none, ne_eq,
    List.getLast?_eq_none_iff]
  exact List.ne_nil_of_mem (List.mem_filter.2 ⟨h, by simp [Except.toOption]⟩)

theorem keepsDirectories_exportEach (opts : SpecFile → Options) (specs : List SpecFile)
    (d : Disk) : KeepsDirectories d (exportEach opts specs d).2 := by
  induction specs generalizing d with
  | nil => exact .refl d
  | cons spec specs ih => exact (Export.keepsDirectories_run (opts spec) d).trans (ih _)

/-- A file stays if no test is written under its name. -/
theorem file_of_exportEach {specs : List SpecFile} {d : Disk} {name : String} {place : Place}
    {bytes : List UInt8} (hfile : d.node? (name :: place) = some (.file bytes))
    (hnone : lastExported? cwd name
      (exportEach (exportOptions cwd dir runId a) specs d).1 = none) :
    (exportEach (exportOptions cwd dir runId a) specs d).2.node? (name :: place) =
      some (.file bytes) := by
  induction specs generalizing d with
  | nil => exact hfile
  | cons spec specs ih =>
      rw [exportEach, lastExported?_cons, Option.or_eq_none_iff] at hnone
      refine ih (Export.file_of_run hfile fun w hw => ?_) hnone.1
      rintro rfl
      have hrow := hnone.2
      simp only at hrow
      rw [hw, if_pos (by simp [Except.toOption, testFileName])] at hrow
      cases hrow

/-- An export that succeeds writes the test to where it reports it. -/
theorem test_of_run {spec : SpecFile} {d d' : Disk} {w : Written}
    (h : (Export.run (exportOptions cwd dir runId a spec) : StateM Disk _) d = (.ok w, d')) :
    w = ⟨Export.path cwd (Path.inProject cwd spec.path) (some dir),
        Export.shownPath cwd (Path.inProject cwd spec.path) (some dir)⟩ ∧
      ∃ content place, compiled? (exportOptions cwd dir runId a spec) d = some content ∧
        d'.place (directory cwd (some dir)) = .ok place ∧
        d'.place w.path = .ok (testFileName cwd spec :: place) ∧
        d'.node? (testFileName cwd spec :: place) =
          some (.file (Text.Utf8.encode content.toList)) := by
  obtain ⟨hw, content, place, hcompiled, hwrote⟩ := Export.wrote_of_run h
  have hdirectory := hwrote.directory
  have hfile := hwrote.file
  have hcontent := hwrote.content
  simp only [cwd_exportOptions, specPath_exportOptions, exportDir_exportOptions]
    at hw hdirectory hfile hcontent
  refine ⟨hw, content, place, hcompiled, hdirectory, ?_, hcontent⟩
  rw [hw]
  exact hfile

/-- An export leaves the trace as it was, and with it what is compiled for other specifications. -/
theorem compiled?_of_run {first spec : SpecFile} {d d' : Disk} {result : Except Export.Error Written}
    (h : (Export.run (exportOptions cwd dir runId a first) : StateM Disk _) d = (result, d')) :
    compiled? (exportOptions cwd dir runId a spec) d' =
      compiled? (exportOptions cwd dir runId a spec) d := by
  have htrace := Export.readText_trace_run (exportOptions cwd dir runId a first) d
  rw [h, cwd_exportOptions, runId_exportOptions] at htrace
  rw [compiled?_eq, compiled?_eq, cwd_exportOptions, runId_exportOptions, htrace]

/-- What a test holds is compiled from the last specification with its name, out of the
trace as it was in the beginning. -/
theorem test_of_exportEach {specs : List SpecFile} {d : Disk} {name : String}
    {last : SpecFile} (h : lastExported? cwd name
      (exportEach (exportOptions cwd dir runId a) specs d).1 = some last) :
    ∃ content place, compiled? (exportOptions cwd dir runId a last) d = some content ∧
      (exportEach (exportOptions cwd dir runId a) specs d).2.place (directory cwd (some dir)) =
        .ok place ∧
      (exportEach (exportOptions cwd dir runId a) specs d).2.node? (name :: place) =
        some (.file (Text.Utf8.encode content.toList)) := by
  induction specs generalizing d with
  | nil => cases h
  | cons first specs ih =>
      rcases hrun : (Export.run (exportOptions cwd dir runId a first) : StateM Disk _) d with
        ⟨result, d₁⟩
      rw [exportEach, hrun] at h ⊢
      rw [lastExported?_cons, Option.or_eq_some_iff] at h
      rcases h with h | ⟨hnone, h⟩
      · obtain ⟨content, place, hcompiled, htest⟩ := ih h
        exact ⟨content, place, (compiled?_of_run hrun).symm.trans hcompiled, htest⟩
      · obtain ⟨hrow, hfirst⟩ := Option.ite_none_right_eq_some.1 h
        obtain rfl : first = last := Option.some.inj hfirst
        cases result with
        | error e => simp [Except.toOption] at hrow
        | ok w =>
            obtain rfl : testFileName cwd first = name := by simpa [Except.toOption] using hrow
            obtain ⟨-, content, place, hcompiled, hplace, -, hnode⟩ := test_of_run hrun
            exact ⟨content, place, hcompiled,
              place_of_keeps (keepsDirectories_exportEach _ specs d₁) hplace,
              file_of_exportEach hnode hnone⟩

/-- The path that is reported leads to the place of the test. -/
theorem place_of_row {specs : List SpecFile} {d : Disk} {spec : SpecFile} {w : Written}
    (h : (spec, .ok w) ∈ (exportEach (exportOptions cwd dir runId a) specs d).1) :
    w = ⟨Export.path cwd (Path.inProject cwd spec.path) (some dir),
        Export.shownPath cwd (Path.inProject cwd spec.path) (some dir)⟩ ∧ ∃ place,
      (exportEach (exportOptions cwd dir runId a) specs d).2.place (directory cwd (some dir)) =
        .ok place ∧
      (exportEach (exportOptions cwd dir runId a) specs d).2.place w.path =
        .ok (testFileName cwd spec :: place) := by
  induction specs generalizing d with
  | nil => cases h
  | cons first specs ih =>
      rcases hrun : (Export.run (exportOptions cwd dir runId a first) : StateM Disk _) d with
        ⟨result, d₁⟩
      have hkeeps := keepsDirectories_exportEach (exportOptions cwd dir runId a) specs d₁
      rw [exportEach, hrun] at h ⊢
      rcases List.mem_cons.1 h with hfirst | h
      · obtain ⟨rfl, rfl⟩ := Prod.mk.inj hfirst
        obtain ⟨hw, -, place, -, hplace, htest, -⟩ := test_of_run hrun
        exact ⟨hw, place, place_of_keeps hkeeps hplace, place_of_keeps hkeeps htest⟩
      · exact ih h

/-- A test that is reported holds what the last specification with its name gives. -/
theorem last_test_of_row {specs : List SpecFile} {d : Disk} {spec : SpecFile} {w : Written}
    (h : (spec, .ok w) ∈ (exportEach (exportOptions cwd dir runId a) specs d).1) :
    ∃ last content place,
      lastExported? cwd (testFileName cwd spec)
        (exportEach (exportOptions cwd dir runId a) specs d).1 = some last ∧
      compiled? (exportOptions cwd dir runId a last) d = some content ∧
      (exportEach (exportOptions cwd dir runId a) specs d).2.place w.path = .ok place ∧
      (exportEach (exportOptions cwd dir runId a) specs d).2.node? place =
        some (.file (Text.Utf8.encode content.toList)) ∧
      ((∀ other w', (other, .ok w') ∈ (exportEach (exportOptions cwd dir runId a) specs d).1 →
        testFileName cwd other = testFileName cwd spec → other = spec) → last = spec) := by
  obtain ⟨-, place, hdirectory, hplace⟩ := place_of_row h
  obtain ⟨last, hlast⟩ := Option.isSome_iff_exists.1 (isSome_lastExported? h)
  obtain ⟨content, place', hcompiled, hdirectory', hnode⟩ := test_of_exportEach hlast
  obtain rfl : place' = place := Except.ok.inj (hdirectory'.symm.trans hdirectory)
  obtain ⟨w', hmem, hname⟩ := mem_of_lastExported? hlast
  exact ⟨last, content, testFileName cwd spec :: place', hlast, hcompiled, hplace, hnode,
    fun honly => honly last w' hmem hname⟩

/-- Where two specifications have one test, it is that of the second. -/
theorem lastExported?_pair {first second : SpecFile} {w w' : Written}
    (hname : testFileName cwd first = testFileName cwd second) :
    lastExported? cwd (testFileName cwd first) [(first, .ok w), (second, .ok w')] =
      some second := by
  rw [lastExported?_cons, lastExported?_cons, hname]
  simp [lastExported?, Except.toOption]

theorem test_of_pair {first second : SpecFile} {d d' : Disk} {w w' : Written}
    (hrun : exportEach (exportOptions cwd dir runId a) [first, second] d =
      ([(first, .ok w), (second, .ok w')], d'))
    (hname : testFileName cwd first = testFileName cwd second) :
    ∃ content place, compiled? (exportOptions cwd dir runId a second) d = some content ∧
      d'.place (Export.path cwd (Path.inProject cwd first.path) (some dir)) = .ok place ∧
      d'.node? place = some (.file (Text.Utf8.encode content.toList)) := by
  have hrow : (first, .ok w) ∈
      (exportEach (exportOptions cwd dir runId a) [first, second] d).1 := by
    rw [hrun]
    exact List.mem_cons_self
  obtain ⟨rfl, -⟩ := place_of_row hrow
  obtain ⟨last, content, place, hlast, hcompiled, hplace, hnode, -⟩ := last_test_of_row hrow
  rw [hrun] at hlast hplace hnode
  obtain rfl : second = last := Option.some.inj ((lastExported?_pair hname).symm.trans hlast)
  exact ⟨content, place, hcompiled, hplace, hnode⟩

end

theorem specs_exportEach (opts : SpecFile → Options) (specs : List SpecFile) (d : Disk) :
    (exportEach opts specs d).1.map Prod.fst = specs := by
  induction specs generalizing d with
  | nil => rfl
  | cons spec specs ih => rw [exportEach, List.map_cons, ih]

/-! ### The command -/

theorem run_exportAll (cwd : Path) (config : Config) (format : Format) (a : ExportArguments)
    (d : Disk) : (exportAll cwd config format a : StateM Disk _) d =
      match ((discover cwd a.spec : StateM Disk _) d).1 with
      | .error e => (.failure e.chain, d)
      | .ok specs =>
        match ((resolveRun cwd a.runId : StateM Disk _) d).1 with
        | .error e => (.failure e.chain, d)
        | .ok runId =>
          let done := exportEach
            (exportOptions cwd (a.exportDir.getD config.exportPath) runId a) specs d
          (exportTranscript format runId (done.1.map fun row =>
            (Path.shown cwd row.1.path, .ofResult row.2)), done.2) := by
  unfold exportAll
  rw [run_bind_of_unchanged (disk_discover cwd a.spec d)]
  cases ((discover cwd a.spec : StateM Disk _) d).1 with
  | error e => rfl
  | ok specs =>
      simp only
      rw [run_bind_of_unchanged (disk_resolveRun cwd a.runId d)]
      cases ((resolveRun cwd a.runId : StateM Disk _) d).1 with
      | error e => rfl
      | ok runId =>
          simp only
          rw [run_bind (run_mapM_export _ _ specs d)]
          rfl

end TraceExport.Command

namespace TraceExport.Command

open Project Report Disk Export

/-- After a command has exported its specifications, a path that is reported leads to
the file of the last exported specification whose test has that name, which holds what
is compiled for it from the trace as it was before. So no test is lost where the names
differ, and they differ for specifications with plain paths that lie in one directory
or have no dash in their names. -/
theorem exportAll_keeps_last (cwd : Path) (config : Config) (format : Format)
    (a : ExportArguments) (d : Disk) :
    let out := (exportAll cwd config format a : StateM Disk _) d
    let dir := a.exportDir.getD config.exportPath
    ((∃ e, (discover cwd a.spec : StateM Disk _) d = (.error e, d) ∧ out = (.failure e.chain, d)) ∨
      (∃ e, (resolveRun cwd a.runId : StateM Disk _) d = (.error e, d) ∧
        out = (.failure e.chain, d)) ∨ ∃ specs runId rows d',
      (discover cwd a.spec : StateM Disk _) d = (.ok specs, d) ∧
      (resolveRun cwd a.runId : StateM Disk _) d = (.ok runId, d) ∧
      exportEach (exportOptions cwd dir runId a) specs d = (rows, d') ∧
      rows.map Prod.fst = specs ∧
      out = (exportTranscript format runId (rows.map fun row =>
        (Path.shown cwd row.1.path, .ofResult row.2)), d') ∧
      ∀ spec w, (spec, .ok w) ∈ rows →
        w = ⟨path cwd (Path.inProject cwd spec.path) (some dir),
          shownPath cwd (Path.inProject cwd spec.path) (some dir)⟩ ∧
        ∃ last content place, lastExported? cwd (testFileName cwd spec) rows = some last ∧
          compiled? (exportOptions cwd dir runId a last) d = some content ∧
          d'.place w.path = .ok place ∧
          d'.node? place = some (.file (Text.Utf8.encode content.toList)) ∧
          ((∀ other w', (other, .ok w') ∈ rows →
            testFileName cwd other = testFileName cwd spec → other = spec) → last = spec)) ∧
    ∀ spec spec' dirs dirs' stem stem', LiesAt cwd spec dirs stem → LiesAt cwd spec' dirs' stem' →
      Segment.IsPlain (dashed dirs stem) → Segment.IsPlain (dashed dirs' stem') →
      (dirs = dirs' ∨ ∀ name ∈ dirs ++ [stem] ++ (dirs' ++ [stem']), '-' ∉ name.toList) →
      path cwd spec (some dir) = path cwd spec' (some dir) →
        (Path.resolve cwd spec).components = (Path.resolve cwd spec').components := by
  intro out dir
  have hout : out = _ := run_exportAll cwd config format a d
  refine ⟨?_, fun spec spec' dirs dirs' stem stem' h h' hplain hplain' hapart hpath =>
    eq_of_fileName_eq h h' hplain hplain' hapart (fileName_eq_of_path_eq hpath)⟩
  have hdiscover := disk_discover cwd a.spec d
  have hresolve := disk_resolveRun cwd a.runId d
  rcases hspecs : (discover cwd a.spec : StateM Disk _) d with ⟨found, d₁⟩
  rcases hrun : (resolveRun cwd a.runId : StateM Disk _) d with ⟨resolved, d₂⟩
  rw [hspecs] at hdiscover hout
  rw [hrun] at hresolve hout
  obtain rfl : d₁ = d := hdiscover
  obtain rfl : d₂ = d₁ := hresolve
  cases found with
  | error e => exact .inl ⟨e, rfl, hout⟩
  | ok specs => cases resolved with
    | error e => exact .inr (.inl ⟨e, rfl, hout⟩)
    | ok runId =>
        exact .inr (.inr ⟨specs, runId, _, _, rfl, rfl, rfl, specs_exportEach _ specs d₂, hout,
          fun spec w hrow => ⟨(place_of_row hrow).1, last_test_of_row hrow⟩⟩)

/-! ### A slash and a dash -/

/-- A trace of two specifications whose paths differ in a slash and a dash. -/
def pairTrace : String :=
  "[\"\",\"specs/a/b.md\",null,\"scroll\",null,[true]]\n" ++
    "[\"\",\"specs/a-b.md\",null,\"scroll\",null,[true]]"

/-- A project with these specifications and this trace. -/
def pairDisk : Disk :=
  let files : List (Place × String) :=
    [(["ir.jsonl", "r", "runs", ".autoqa", "p"], pairTrace),
      (["b.md", "a", "specs", "p"], "## Steps\n1. Scroll down"),
      (["a-b.md", "specs", "p"], "## Steps\n1. Scroll up")]
  files.foldl (fun d file => d.put file.1 (.file (Text.Utf8.encode file.2.toList)))
    ((projectDisk.put ["specs", "p"] .directory).put ["a", "specs", "p"] .directory)

def nestedSpec : SpecFile := .ofText ⟨"/p/specs/a/b.md"⟩ "## Steps\n1. Scroll down"

def dashedSpec : SpecFile := .ofText ⟨"/p/specs/a-b.md"⟩ "## Steps\n1. Scroll up"

def pairArguments : ExportArguments :=
  ⟨⟨"specs"⟩, some "r", "https://app.test", none, some ⟨"tests/autoqa"⟩⟩

def plainConfig : Config := ⟨1, none, none, none⟩

def pairOptions : SpecFile → Options :=
  exportOptions ⟨"/p"⟩ ⟨"tests/autoqa"⟩ "r" pairArguments

theorem discover_pair : ((discover ⟨"/p"⟩ pairArguments.spec : StateM Disk _) pairDisk).1 =
    .ok [nestedSpec, dashedSpec] := by
  have hfound : let specs := [nestedSpec, dashedSpec]
      let files := (specs.map SpecFile.path).filter isMarkdown
      pairDisk.kind? (Path.resolve ⟨"/p"⟩ ⟨"specs"⟩) = some .directory ∧
      pairDisk.filesBelow (Path.resolve ⟨"/p"⟩ ⟨"specs"⟩) = .ok (specs.map SpecFile.path) ∧
      (files.Pairwise fun p q => p.sortsBefore q) ∧
      ((readSpecs files : StateM Disk _) pairDisk).1 = .ok specs := by decide +kernel
  obtain ⟨hkind, hfiles, hsorted, hread⟩ := hfound
  rw [pairArguments, discover_sorted hkind hfiles hsorted, hread]
  rfl

/-- Both have a test of their own to be written. -/
theorem compiled_pair : ∃ nested dashed, compiled? (pairOptions nestedSpec) pairDisk = some nested ∧
    compiled? (pairOptions dashedSpec) pairDisk = some dashed ∧ nested ≠ dashed := by
  have hread : pairDisk.readText (Trace.path ⟨"/p"⟩ "r") = .ok pairTrace := by decide +kernel
  have hfrom (spec : SpecFile) : compiled? (pairOptions spec) pairDisk =
      compiledFrom? (pairOptions spec) (.ok pairTrace) := by
    rw [compiled?_eq, ← hread, pairOptions, cwd_exportOptions, runId_exportOptions]
  obtain ⟨hnested, hdashed, hne⟩ : (compiledFrom? (pairOptions nestedSpec) (.ok pairTrace)).isSome ∧
      (compiledFrom? (pairOptions dashedSpec) (.ok pairTrace)).isSome ∧
      compiledFrom? (pairOptions nestedSpec) (.ok pairTrace) ≠
        compiledFrom? (pairOptions dashedSpec) (.ok pairTrace) := by decide +kernel
  rw [hfrom, hfrom]
  obtain ⟨nested, hnested⟩ := Option.isSome_iff_exists.1 hnested
  obtain ⟨dashed, hdashed⟩ := Option.isSome_iff_exists.1 hdashed
  refine ⟨nested, dashed, hnested, hdashed, fun h => hne ?_⟩
  rw [hnested, hdashed, h]

/-- Both tests are written. -/
theorem exportEach_pair : ∃ w w' d', exportEach pairOptions [nestedSpec, dashedSpec] pairDisk =
    ([(nestedSpec, .ok w), (dashedSpec, .ok w')], d') := by
  obtain ⟨nested, dashed, hnested, hdashed, -⟩ := compiled_pair
  have hwritten : let first := (writeTest (pairOptions nestedSpec)
        ((compiled? (pairOptions nestedSpec) pairDisk).getD "") : StateM Disk _) pairDisk
      let second := (writeTest (pairOptions dashedSpec)
        ((compiled? (pairOptions dashedSpec) pairDisk).getD "") : StateM Disk _) first.2
      first.1.toOption.isSome ∧ second.1.toOption.isSome := by decide +kernel
  rw [hnested, hdashed, Option.getD_some, Option.getD_some] at hwritten
  have hfirst := run_eq_of_compiled hnested
  rcases hw : (writeTest (pairOptions nestedSpec) nested : StateM Disk _) pairDisk with
    ⟨e | w, d₁⟩
  · rw [hw] at hwritten
    simp [Except.toOption] at hwritten
  rw [hw] at hwritten hfirst
  have hsecond : compiled? (pairOptions dashedSpec) d₁ = some dashed :=
    (compiled?_of_run hfirst).trans hdashed
  rcases hw' : (writeTest (pairOptions dashedSpec) dashed : StateM Disk _) d₁ with ⟨e | w', d₂⟩
  · simp only [hw'] at hwritten
    simp [Except.toOption] at hwritten
  refine ⟨w, w', d₂, ?_⟩
  rw [exportEach, exportEach, exportEach, hfirst, run_eq_of_compiled hsecond, hw']

/-- The command reports that both went well. -/
theorem exportAll_pair : ∃ w w' d', exportEach pairOptions [nestedSpec, dashedSpec] pairDisk =
      ([(nestedSpec, .ok w), (dashedSpec, .ok w')], d') ∧
    (exportAll ⟨"/p"⟩ plainConfig .plain pairArguments : StateM Disk _) pairDisk =
      (exportTranscript .plain "r" [(Path.shown ⟨"/p"⟩ nestedSpec.path, .ofResult (.ok w)),
        (Path.shown ⟨"/p"⟩ dashedSpec.path, .ofResult (.ok w'))], d') := by
  obtain ⟨w, w', d', hrows⟩ := exportEach_pair
  have hrun : ((resolveRun ⟨"/p"⟩ pairArguments.runId : StateM Disk _) pairDisk).1 = .ok "r" := rfl
  have hdir : pairArguments.exportDir.getD plainConfig.exportPath = ⟨"tests/autoqa"⟩ := rfl
  have hopts : exportOptions ⟨"/p"⟩ ⟨"tests/autoqa"⟩ "r" pairArguments = pairOptions := rfl
  refine ⟨w, w', d', hrows, ?_⟩
  rw [run_exportAll, discover_pair, hrun, hdir]
  simp only [hopts, hrows]
  rfl

theorem testFileName_pair :
    testFileName ⟨"/p"⟩ nestedSpec = testFileName ⟨"/p"⟩ dashedSpec := by
  decide +kernel

/-- The test that is reported for the first specification is that of the last. -/
theorem exportAll_keeps_last_pair :
    let out := (exportAll ⟨"/p"⟩ plainConfig .plain pairArguments : StateM Disk _) pairDisk
    let test (spec : Path) := path ⟨"/p"⟩ spec (some ⟨"tests/autoqa"⟩)
    (∃ content place, compiled? (pairOptions dashedSpec) pairDisk = some content ∧
      out.2.place (test (Path.inProject ⟨"/p"⟩ nestedSpec.path)) = .ok place ∧
      out.2.node? place = some (.file (Text.Utf8.encode content.toList))) ∧
    test ⟨"/p/specs/a/b.md"⟩ ≠ test ⟨"/p/specs/c.md"⟩ := by
  obtain ⟨w, w', d', hpair, hall⟩ := exportAll_pair
  obtain ⟨hnone | hlost | hdone, hapart⟩ :=
    exportAll_keeps_last ⟨"/p"⟩ plainConfig .plain pairArguments pairDisk
  · obtain ⟨e, he, -⟩ := hnone
    have hspecs := discover_pair
    rw [he] at hspecs
    cases hspecs
  · obtain ⟨e, he, -⟩ := hlost
    have hrun : Except.error e = .ok "r" := congrArg Prod.fst he.symm
    cases hrun
  obtain ⟨specs, runId, rows, d₁, hdiscover, hrun, hrows, -, -, htests⟩ := hdone
  have hspecs := discover_pair
  rw [hdiscover] at hspecs
  obtain rfl : specs = [nestedSpec, dashedSpec] := Except.ok.inj hspecs
  obtain rfl : "r" = runId := Except.ok.inj (congrArg Prod.fst hrun)
  obtain ⟨rfl, rfl⟩ := Prod.mk.inj (hrows.symm.trans hpair)
  rw [hall]
  constructor
  · obtain ⟨rfl, last, content, place, hlast, hcompiled, hplace, hnode, -⟩ :=
      htests nestedSpec w List.mem_cons_self
    rw [lastExported?_pair testFileName_pair] at hlast
    obtain rfl : dashedSpec = last := Option.some.inj hlast
    exact ⟨content, place, hcompiled, hplace, hnode⟩
  · have hnested : LiesAt ⟨"/p"⟩ ⟨"/p/specs/a/b.md"⟩ ["specs", "a"] "b" := by decide +kernel
    have hflat : LiesAt ⟨"/p"⟩ ⟨"/p/specs/c.md"⟩ ["specs"] "c" := by decide +kernel
    intro hsame
    have hcomponents := hapart _ _ _ _ _ _ hnested hflat (Segment.isPlain_iff.2 (by decide))
      (Segment.isPlain_iff.2 (by decide)) (.inr (by decide)) hsame
    exact absurd hcomponents (by decide +kernel)

/-- Two specifications whose paths differ in a slash and a dash have one test. Both are
reported, and the first one is lost. -/
theorem exportAll_overwrites :
    let out := (exportAll ⟨"/p"⟩ plainConfig .plain pairArguments : StateM Disk _) pairDisk
    let test (spec : SpecFile) := path ⟨"/p"⟩ (Path.inProject ⟨"/p"⟩ spec.path)
      (some ⟨"tests/autoqa"⟩)
    out.1.ok = true ∧ nestedSpec.path ≠ dashedSpec.path ∧ test nestedSpec = test dashedSpec ∧
    ∃ content place bytes, compiled? (pairOptions nestedSpec) pairDisk = some content ∧
      out.2.place (test nestedSpec) = .ok place ∧ out.2.node? place = some (.file bytes) ∧
      bytes ≠ Text.Utf8.encode content.toList := by
  obtain ⟨w, w', d', hrows, hall⟩ := exportAll_pair
  obtain ⟨nested, dashed, hnested, hdashed, hne⟩ := compiled_pair
  rw [pairOptions] at hrows
  obtain ⟨content, place, hcompiled, hplace, hnode⟩ := test_of_pair hrows testFileName_pair
  rw [← pairOptions, hdashed] at hcompiled
  obtain rfl : dashed = content := Option.some.inj hcompiled
  rw [hall]
  exact ⟨rfl, by decide, path_eq_of_fileName_eq testFileName_pair, nested, place, _, hnested,
    hplace, hnode, fun hbytes => hne (Text.Utf8.encode_inj.1 hbytes).symm⟩

end TraceExport.Command
