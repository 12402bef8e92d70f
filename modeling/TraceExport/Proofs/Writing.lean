import TraceExport.Export.Basic
import TraceExport.Proofs.Disk
import TraceExport.Proofs.Segment

/-!
What an export leaves on a disk. All is read and checked before the first change, so
an export that is refused changes nothing. One that succeeds makes the directories
that are missing on the way to the export directory and writes one file there. The
name of that file ends in another way than that of a trace, so the trace is still
there, and the same export again gives the same file (`run_writes_once`).
-/

namespace TraceExport.Export

open Trace Disk

/-! ### Places -/

/-- No test has the name of a trace. -/
theorem fileName_ne_trace (cwd spec : Path) : fileName cwd spec ≠ Trace.fileName := by
  intro heq
  have hlast := congrArg (fun s => s.toList.getLast?) heq
  simp [fileName, Trace.fileName] at hlast

theorem follow_name {d : Disk} {start goal : Place} {cs : List Component} {name : String} :
    d.follow start (cs ++ [.normal name]) = .ok goal →
      ∃ dir, d.follow start cs = .ok dir ∧ goal = name :: dir := by
  intro h
  obtain ⟨dir, hdir, hname⟩ := follow_append.1 h
  obtain ⟨next, henter, hend⟩ := follow_cons.1 hname
  cases hend
  exact ⟨dir, hdir, enter_name henter⟩

theorem suffix_of_follow {d : Disk} {start goal : Place} {names : List String}
    (h : d.follow start (names.map .normal) = .ok goal) : start <:+ goal := by
  induction names generalizing start with
  | nil =>
      cases h
      exact List.suffix_refl _
  | cons name names ih =>
      obtain ⟨next, henter, hrest⟩ := follow_cons.1 h
      obtain rfl := enter_name henter
      exact (List.suffix_cons name start).trans (ih hrest)

theorem eq_root_of_follow {d : Disk} {cs : List Component}
    (hcs : ∀ c ∈ cs, c = .root ∨ c = .parent) {q : Place} (h : d.follow [] cs = .ok q) :
    q = [] := by
  induction cs with
  | nil =>
      cases h
      rfl
  | cons c cs ih =>
      obtain ⟨hc, hcs⟩ := List.forall_mem_cons.1 hcs
      obtain ⟨next, henter, hrest⟩ := follow_cons.1 h
      have hnext : next = [] := by
        rcases hc with rfl | rfl <;> exact (Except.ok.inj henter).symm
      exact ih hcs (hnext ▸ hrest)

/-- On plain components, whatever is on the way is above the goal. -/
theorem suffix_of_prefix {d : Disk} {absolute : Bool} {up : Nat} {names : List String}
    {front : List Component} (hfront : front <+: Path.plain absolute up names) {q goal : Place}
    (hq : d.follow [] front = .ok q)
    (hgoal : d.follow [] (Path.plain absolute up names) = .ok goal) : q <:+ goal := by
  obtain ⟨rest, hrest⟩ := hfront
  rw [← hrest] at hgoal
  obtain ⟨middle, hmiddle, hgoal⟩ := follow_append.1 hgoal
  obtain rfl : middle = q := Except.ok.inj (hmiddle.symm.trans hq)
  -- The front ends before the names, at the root of the disk, or among them.
  rcases List.append_eq_append_iff.1 hrest with ⟨lead, hlead, -⟩ | ⟨early, -, hnames⟩
  · have hroot : middle = [] := by
      refine eq_root_of_follow (fun c hc => ?_) hq
      have hmem : c ∈ (if absolute then [Component.root] else []) ++ List.replicate up .parent := by
        rw [hlead]
        exact List.mem_append_left _ hc
      rcases List.mem_append.1 hmem with hmem | hmem
      · left
        cases absolute <;> simp_all
      · exact .inr (List.eq_of_mem_replicate hmem)
    rw [hroot]
    exact List.nil_suffix
  · obtain ⟨before, after, -, -, hafter⟩ := List.map_eq_append_iff.1 hnames
    rw [← hafter] at hgoal
    exact suffix_of_follow hgoal

/-! ### Running -/

/-- What the records of a specification are read as, given what reading the trace
gave. -/
def recordsIn (cwd spec : Path) : Except FileError String → Except Error (List Record)
  | .error e => .error (.unreadable (.file e))
  | .ok text =>
    match readRecords text with
    | .error found => .error (.unreadable (.malformed found))
    | .ok records => .ok (records.filter (Record.isFor cwd spec))

theorem run_loadRecords (d : Disk) (cwd : Path) (runId : String) (spec : Path) :
    (loadRecords cwd runId spec : StateM Disk _) d =
      (recordsIn cwd spec (d.readText (Trace.path cwd runId)), d) := by
  simp only [loadRecords, readForSpec, readAll, bind, StateT.bind, run_readText, recordsIn]
  cases d.readText (Trace.path cwd runId) with
  | error e => rfl
  | ok text => cases hrecords : readRecords text with
    | error found => simp only [hrecords]; rfl
    | ok records => simp only [hrecords]; rfl

theorem run_writeTest (o : Options) (content : String) (d : Disk) :
    (writeTest o content : StateM Disk _) d =
      match d.makeDirectory (directory o.cwd o.exportDir) with
      | (.error e, d) => (.error (.write .directory e), d)
      | (.ok (), d) =>
        match d.writeText (path o.cwd o.specPath o.exportDir) content with
        | (.error e, d) => (.error (.write .file e), d)
        | (.ok (), d) => (.ok ⟨path o.cwd o.specPath o.exportDir,
            shownPath o.cwd o.specPath o.exportDir⟩, d) := by
  simp only [writeTest, bind, StateT.bind, run_makeDirectory]
  rcases d.makeDirectory (directory o.cwd o.exportDir) with ⟨e | ⟨⟩, d₁⟩
  · rfl
  · simp only [StateT.bind, run_writeText]
    rcases d₁.writeText (path o.cwd o.specPath o.exportDir) content with ⟨e | ⟨⟩, d₂⟩
    · rfl
    · rfl

/-- An export writes only what is compiled from the records that were read. -/
theorem run_eq (o : Options) (d : Disk) : (run o : StateM Disk _) d =
    match recordsIn o.cwd o.specPath (d.readText (Trace.path o.cwd o.runId)) with
    | .error e => (.error e, d)
    | .ok records =>
      match compile o records with
      | .error e => (.error e, d)
      | .ok content => (writeTest o content : StateM Disk _) d := by
  simp only [run, bind, StateT.bind, run_loadRecords]
  cases recordsIn o.cwd o.specPath (d.readText (Trace.path o.cwd o.runId)) with
  | error e => rfl
  | ok records => cases hcompile : compile o records with
    | error e => simp only [hcompile]; rfl
    | ok content => simp only [hcompile]

/-! ### Writing -/

/-- A disk on which a test was written, compared to the one before. -/
structure Wrote (o : Options) (content : String) (d d' : Disk) (dir : Place) : Prop where
  directory : d'.place (directory o.cwd o.exportDir) = .ok dir
  isDirectory : d'.node? dir = some .directory
  file : d'.place (path o.cwd o.specPath o.exportDir) = .ok (fileName o.cwd o.specPath :: dir)
  content : d'.node? (fileName o.cwd o.specPath :: dir) =
    some (.file (Text.Utf8.encode content.toList))
  keeps : KeepsDirectories d d'
  only : ∀ q, q ≠ fileName o.cwd o.specPath :: dir → d'.node? q = d.node? q ∨
    d.node? q = none ∧ d'.node? q = some .directory ∧ q <:+ dir

theorem writeTest_eq_ok {o : Options} {content : String} {d d' : Disk} {w : Written} :
    (writeTest o content : StateM Disk _) d = (.ok w, d') ↔
      w = ⟨path o.cwd o.specPath o.exportDir, shownPath o.cwd o.specPath o.exportDir⟩ ∧
        ∃ d₁, d.makeDirectory (directory o.cwd o.exportDir) = (.ok (), d₁) ∧
          d₁.writeText (path o.cwd o.specPath o.exportDir) content = (.ok (), d') := by
  constructor
  · intro h
    rw [run_writeTest] at h
    split at h
    · cases h
    · rename_i d₁ hmake
      split at h
      · cases h
      · rename_i d₂ hwrite
        cases h
        exact ⟨rfl, d₁, hmake, hwrite⟩
  · rintro ⟨rfl, d₁, hmake, hwrite⟩
    rw [run_writeTest]
    simp only [hmake, hwrite]

/-- The directories are made, then the file is put into the last of them. -/
theorem exists_put_of_writeTest {o : Options} {content : String} {d d' : Disk} {w : Written}
    (h : (writeTest o content : StateM Disk _) d = (.ok w, d')) : ∃ d₁ dir,
      Makes d d₁ [] (directory o.cwd o.exportDir).components dir ∧
        (∀ e, KeepsDirectories d₁ e → e.makeDirectory (directory o.cwd o.exportDir) = (.ok (), e)) ∧
        d₁.place (path o.cwd o.specPath o.exportDir) = .ok (fileName o.cwd o.specPath :: dir) ∧
        d₁.node? (fileName o.cwd o.specPath :: dir) ≠ some .directory ∧
        d' = d₁.put (fileName o.cwd o.specPath :: dir)
          (.file (Text.Utf8.encode content.toList)) := by
  obtain ⟨-, d₁, hmake, hwrite⟩ := writeTest_eq_ok.1 h
  obtain ⟨⟨dir, hmakes⟩, hagain⟩ := makes_of_makeDirectory hmake
  obtain ⟨q, hq, hfile, -, rfl⟩ := writeText_eq_ok.1 hwrite
  have hfollow := hq
  rw [place, components_path] at hfollow
  obtain ⟨dir', hdir', rfl⟩ := follow_name hfollow
  obtain rfl : dir' = dir := Except.ok.inj (hdir'.symm.trans hmakes.leads)
  exact ⟨d₁, dir', hmakes, hagain, hq, hfile, rfl⟩

theorem wrote_of_writeTest {o : Options} {content : String} {d d' : Disk} {w : Written}
    (h : (writeTest o content : StateM Disk _) d = (.ok w, d')) :
    ∃ dir, Wrote o content d d' dir := by
  obtain ⟨d₁, dir, hmakes, -, hplace, hfile, rfl⟩ := exists_put_of_writeTest h
  have hne : fileName o.cwd o.specPath :: dir ≠ [] := by simp
  have hkeeps := keepsDirectories_put hne hfile (.file (Text.Utf8.encode content.toList))
  refine ⟨dir, hkeeps.follow hmakes.leads, hkeeps dir hmakes.isDirectory,
    place_of_keeps hkeeps hplace, by rw [node?_put hne, if_pos rfl],
    hmakes.keeps.trans hkeeps, fun q hq => ?_⟩
  rw [node?_put hne, if_neg hq]
  obtain heq | ⟨hnone, hmade, front, hfront, hleads⟩ := hmakes.only q
  · exact .inl heq
  · obtain ⟨absolute, up, names, hplain, -⟩ :=
      Path.components_resolve o.cwd (o.exportDir.getD defaultDir)
    have hgoal := hmakes.leads
    rw [Export.directory, hplain] at hfront hgoal
    exact .inr ⟨hnone, hmade, suffix_of_prefix hfront hleads hgoal⟩

/-- The trace is not where the test is written. -/
theorem Wrote.readText_trace {o : Options} {content : String} {d d' : Disk} {dir : Place}
    (h : Wrote o content d d' dir) {text : String}
    (hread : d.readText (Trace.path o.cwd o.runId) = .ok text) :
    d'.readText (Trace.path o.cwd o.runId) = .ok text := by
  obtain ⟨q, bytes, hplace, hnode, hsame⟩ := readText_eq_ok hread
  refine hsame d' (place_of_keeps h.keeps hplace) ?_
  have hfollow := hplace
  rw [place, components_tracePath] at hfollow
  obtain ⟨runDir, -, rfl⟩ := follow_name hfollow
  have hother : Trace.fileName :: runDir ≠ fileName o.cwd o.specPath :: dir := by
    intro heq
    exact fileName_ne_trace o.cwd o.specPath (List.head_eq_of_cons_eq heq).symm
  obtain heq | ⟨hnone, -⟩ := h.only _ hother
  · rw [heq, hnode]
  · rw [hnone] at hnode
    cases hnode

theorem run_eq_ok {o : Options} {d d' : Disk} {w : Written} :
    (run o : StateM Disk _) d = (.ok w, d') ↔ ∃ records content,
      recordsIn o.cwd o.specPath (d.readText (Trace.path o.cwd o.runId)) = .ok records ∧
        compile o records = .ok content ∧
          (writeTest o content : StateM Disk _) d = (.ok w, d') := by
  rw [run_eq]
  constructor
  · intro h
    split at h
    · cases h
    · rename_i records hload
      split at h
      · cases h
      · rename_i content hcompile
        exact ⟨records, content, hload, hcompile, h⟩
  · rintro ⟨records, content, hload, hcompile, hwrite⟩
    simp only [hload, hcompile, hwrite]

/-- A trace with one record, of a page that is scrolled. -/
def scrollTrace : String :=
  "\x7b\"specPath\":\"a.md\",\"toolName\":\"scroll\",\"outcome\":\x7b\"ok\":true\x7d\x7d"

/-- A disk with a project that holds nothing but this trace. -/
def projectDisk : Disk where
  nodes := [⟨["p"], .directory, 0⟩, ⟨[".autoqa", "p"], .directory, 0⟩,
    ⟨["runs", ".autoqa", "p"], .directory, 0⟩, ⟨["r", "runs", ".autoqa", "p"], .directory, 0⟩,
    ⟨["ir.jsonl", "r", "runs", ".autoqa", "p"],
      .file (Text.Utf8.encode scrollTrace.toList), 0⟩]
  clock := 1

def scrollOptions : Options where
  cwd := ⟨"/p"⟩
  runId := "r"
  specPath := ⟨"a.md"⟩
  spec := ⟨[], [⟨1, "Scroll", .action⟩]⟩
  baseUrl := "https://app.test"
  loginBaseUrl := none
  rawSpec := none
  exportDir := none

end TraceExport.Export
