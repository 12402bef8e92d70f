import TraceExport.Proofs.RunName
import Mathlib.Data.List.Nodup

/-!
The run that is taken when none is named. Directories are compared by the time of their last change
and, where that is the same, by their names. The one that no other exceeds is found in every
listing of the same entries, so the order in which a file system lists them does not matter
(`latestRun?_perm`).
-/

namespace TraceExport.Project

/-! ### The order of runs -/

/-- An entry was changed before another, or at the same time and its name is not greater. -/
def Precedes (a b : DirEntry) : Prop :=
  a.modified < b.modified ∨ (a.modified = b.modified ∧ a.name ≤ b.name)

namespace Precedes

variable {a b c : DirEntry}

theorem refl (a : DirEntry) : Precedes a a := .inr ⟨rfl, String.le_refl a.name⟩

theorem trans (hab : Precedes a b) (hbc : Precedes b c) : Precedes a c := by
  rcases hab with hab | ⟨hab, hname⟩
  · left
    rcases hbc with hbc | ⟨hbc, -⟩ <;> omega
  · rcases hbc with hbc | ⟨hbc, hname'⟩
    · left
      omega
    · exact .inr ⟨hab.trans hbc, String.le_trans hname hname'⟩

/-- Only one entry of a kind has its time and its name. -/
theorem antisymm (hkind : a.kind = b.kind) (hab : Precedes a b) (hba : Precedes b a) : a = b := by
  obtain ⟨htime, hname⟩ : a.modified = b.modified ∧ a.name = b.name := by
    rcases hab with hab | ⟨hab, hname⟩
    · rcases hba with hba | ⟨hba, -⟩ <;> omega
    · rcases hba with hba | ⟨-, hname'⟩
      · omega
      · exact ⟨hab, String.le_antisymm hname hname'⟩
  cases a
  cases b
  simp_all

end Precedes

theorem isLater_eq_false_iff {a b : DirEntry} : isLater a b = false ↔ Precedes a b := by
  have hname : a.name ≤ b.name ↔ ¬ b.name < a.name := Iff.rfl
  simp only [isLater, Precedes, hname, Bool.or_eq_false_iff, Bool.and_eq_false_iff,
    decide_eq_false_iff_not, beq_eq_false_iff_ne]
  constructor
  · rintro ⟨htime, hdiff | hless⟩
    · left
      omega
    · rcases Nat.lt_or_ge a.modified b.modified with hlt | hge
      · exact .inl hlt
      · exact .inr ⟨by omega, hless⟩
  · rintro (hlt | ⟨heq, hless⟩)
    · exact ⟨by omega, .inl (by omega)⟩
    · exact ⟨by omega, .inr hless⟩

theorem precedes_of_isLater {a b : DirEntry} (h : isLater a b) : Precedes b a := by
  simp only [isLater, Bool.or_eq_true, Bool.and_eq_true, decide_eq_true_eq, beq_iff_eq] at h
  rcases h with hlt | ⟨heq, hless⟩
  · exact .inl hlt
  · exact .inr ⟨heq, String.not_lt.1 (String.lt_asymm hless)⟩

/-! ### The latest run of a listing -/

/-- The directory that was changed last; of those changed at that time, the one with the greatest
name. -/
structure IsLatest (entries : List DirEntry) (run : DirEntry) : Prop where
  mem : run ∈ entries
  kind : run.kind = .directory
  last : ∀ e ∈ entries, e.kind = .directory → Precedes e run

namespace IsLatest

variable {entries entries' : List DirEntry} {run run' : DirEntry}

theorem unique (h : IsLatest entries run) (h' : IsLatest entries run') : run = run' :=
  (h'.last run h.mem h.kind).antisymm (h.kind.trans h'.kind.symm) (h.last run' h'.mem h'.kind)

/-- The order of a listing says nothing about its latest run. -/
theorem perm (hperm : entries.Perm entries') (h : IsLatest entries run) :
    IsLatest entries' run where
  mem := hperm.mem_iff.1 h.mem
  kind := h.kind
  last := fun e he => h.last e (hperm.mem_iff.2 he)

end IsLatest

/-- What is kept of a run that was found and the next one. -/
def keepLater (latest : Option DirEntry) (run : DirEntry) : Option DirEntry :=
  match latest with
  | none => some run
  | some best => if isLater run best then some run else latest

theorem latestRun?_eq (entries : List DirEntry) :
    latestRun? entries = (entries.filter (·.kind == .directory)).foldl keepLater none := rfl

/-- Neither the run that was found nor the next one exceeds what is kept. -/
theorem exists_keepLater (latest : Option DirEntry) (run : DirEntry) :
    ∃ best, keepLater latest run = some best ∧ Precedes run best ∧
      ∀ found ∈ latest, Precedes found best := by
  cases latest with
  | none => exact ⟨run, rfl, .refl run, by simp⟩
  | some found =>
      cases hlater : isLater run found with
      | true =>
          refine ⟨run, by simp [keepLater, hlater], .refl run, fun e he => ?_⟩
          cases he
          exact precedes_of_isLater hlater
      | false =>
          refine ⟨found, by simp [keepLater, hlater], isLater_eq_false_iff.1 hlater, fun e he => ?_⟩
          cases he
          exact .refl found

theorem exists_foldl_keepLater (runs : List DirEntry) (found : DirEntry) :
    ∃ best, runs.foldl keepLater (some found) = some best ∧ Precedes found best ∧
      ∀ run ∈ runs, Precedes run best := by
  induction runs generalizing found with
  | nil => exact ⟨found, rfl, .refl found, by simp⟩
  | cons run runs ih =>
      obtain ⟨next, hnext, hrun, hfound⟩ := exists_keepLater (some found) run
      obtain ⟨best, hbest, hbefore, hafter⟩ := ih next
      refine ⟨best, by rw [List.foldl_cons, hnext, hbest], (hfound found rfl).trans hbefore, ?_⟩
      exact List.forall_mem_cons.2 ⟨hrun.trans hbefore, hafter⟩

theorem latestRun?_eq_none_iff {entries : List DirEntry} :
    latestRun? entries = none ↔ ∀ e ∈ entries, e.kind ≠ .directory := by
  have hfilter : entries.filter (·.kind == .directory) = [] ↔
      ∀ e ∈ entries, e.kind ≠ .directory := by
    simp [List.filter_eq_nil_iff]
  rw [latestRun?_eq, ← hfilter]
  cases entries.filter (·.kind == .directory) with
  | nil => simp
  | cons run runs =>
      obtain ⟨best, hbest, -⟩ := exists_foldl_keepLater runs run
      have hfold : (run :: runs).foldl keepLater none = some best := hbest
      simp [hfold]

theorem isLatest_of_latestRun? {entries : List DirEntry} {run : DirEntry}
    (h : latestRun? entries = some run) : IsLatest entries run := by
  obtain ⟨hmem, hkind⟩ := latestRun?_mem h
  refine ⟨hmem, hkind, fun e he hdirectory => ?_⟩
  have hfiltered : e ∈ entries.filter (·.kind == .directory) := by simp [he, hdirectory]
  rw [latestRun?_eq] at h
  cases hruns : entries.filter (·.kind == .directory) with
  | nil => simp [hruns] at hfiltered
  | cons first runs =>
      obtain ⟨best, hbest, hfirst, hrest⟩ := exists_foldl_keepLater runs first
      rw [hruns] at h hfiltered
      obtain rfl : best = run := Option.some.inj (hbest.symm.trans h)
      rcases List.mem_cons.1 hfiltered with rfl | hmem
      · exact hfirst
      · exact hrest e hmem

/-- What is found is the latest run, and it is found if there is one. -/
theorem latestRun?_eq_some_iff {entries : List DirEntry} {run : DirEntry} :
    latestRun? entries = some run ↔ IsLatest entries run := by
  refine ⟨isLatest_of_latestRun?, fun h => ?_⟩
  cases hfound : latestRun? entries with
  | none => exact absurd h.kind (latestRun?_eq_none_iff.1 hfound run h.mem)
  | some found => rw [(isLatest_of_latestRun? hfound).unique h]

theorem latestRun?_perm {entries entries' : List DirEntry} (h : entries.Perm entries') :
    latestRun? entries = latestRun? entries' := by
  apply Option.ext
  intro run
  rw [latestRun?_eq_some_iff, latestRun?_eq_some_iff]
  exact ⟨.perm h, .perm h.symm⟩

/-! ### The run that is taken on a disk -/

/-- The run that is taken on a disk, or why there is none. -/
abbrev takenRun (cwd : Path) (named : Option String) (d : Disk) : Except DiscoveryError String :=
  ((resolveRun cwd named : StateM Disk _) d).1

section

variable {cwd : Path} {d : Disk} {entries : List DirEntry}
  (hlisting : d.entries (Trace.runsDir cwd) = .ok entries)

include hlisting

theorem takenRun_eq : takenRun cwd none d =
    match latestRun? entries with
    | some run => .ok run.name
    | none => .error .noRuns := by
  have hrun := run_resolveRun cwd d
  rw [hlisting] at hrun
  exact hrun

theorem takenRun_eq_ok_iff {name : String} :
    takenRun cwd none d = .ok name ↔ ∃ run, IsLatest entries run ∧ run.name = name := by
  rw [takenRun_eq hlisting]
  simp only [← latestRun?_eq_some_iff]
  cases latestRun? entries with
  | none => simp
  | some run => simp

theorem takenRun_eq_error_iff {e : DiscoveryError} :
    takenRun cwd none d = .error e ↔ e = .noRuns ∧ ∀ entry ∈ entries, entry.kind ≠ .directory := by
  rw [takenRun_eq hlisting, ← latestRun?_eq_none_iff]
  cases latestRun? entries with
  | none => simp [eq_comm]
  | some run => simp

/-- Names of their own keep files apart from the run that is taken. -/
theorem kind_of_takenRun (hnames : (entries.map DirEntry.name).Nodup) {name : String}
    (h : takenRun cwd none d = .ok name) :
    ∀ entry ∈ entries, entry.name = name → entry.kind = .directory := by
  obtain ⟨run, hlatest, rfl⟩ := (takenRun_eq_ok_iff hlisting).1 h
  intro entry hentry hname
  rw [List.inj_on_of_nodup_map hnames hentry hlatest.mem hname]
  exact hlatest.kind

end

/-- The run that is taken where none is named depends on the entries of the directory of runs and
not on their order. It is the latest of the directories, never anything else, and an error says
that there is none. A run that is named is taken whatever there is. -/
theorem takenRun_latest {cwd : Path} {d : Disk} {entries : List DirEntry}
    (hlisting : d.entries (Trace.runsDir cwd) = .ok entries) :
    (∀ (d' : Disk) entries', d'.entries (Trace.runsDir cwd) = .ok entries' →
        entries'.Perm entries → takenRun cwd none d' = takenRun cwd none d) ∧
      (∀ name, takenRun cwd none d = .ok name ↔ ∃ run, IsLatest entries run ∧ run.name = name) ∧
      ((entries.map DirEntry.name).Nodup → ∀ name, takenRun cwd none d = .ok name →
        ∀ entry ∈ entries, entry.name = name → entry.kind = .directory) ∧
      (∀ e, takenRun cwd none d = .error e ↔
        e = .noRuns ∧ ∀ entry ∈ entries, entry.kind ≠ .directory) ∧
      ∀ id d', takenRun cwd (some id) d' = .ok id := by
  refine ⟨fun d' entries' hlisting' hperm => ?_, fun name => takenRun_eq_ok_iff hlisting,
    fun hnames name => kind_of_takenRun hlisting hnames, fun e => takenRun_eq_error_iff hlisting,
    fun id d' => rfl⟩
  rw [takenRun_eq hlisting, takenRun_eq hlisting', latestRun?_perm hperm]

/-- A project whose directory of runs holds some entries, listed in their order. -/
def diskWithEntries (entries : List DirEntry) : Disk where
  nodes := [⟨["p"], .directory, 0⟩, ⟨[".autoqa", "p"], .directory, 0⟩,
    ⟨["runs", ".autoqa", "p"], .directory, 0⟩] ++ entries.map fun e =>
      ⟨[e.name, "runs", ".autoqa", "p"], if e.kind = .directory then .directory else .file [],
        e.modified⟩
  clock := 0

/-- So every listing there can be, in every order, is that of a disk. -/
theorem entries_diskWithEntries (entries : List DirEntry) :
    (diskWithEntries entries).entries (Trace.runsDir ⟨"/p"⟩) = .ok entries := by
  have hfind : (diskWithEntries entries).find (Trace.runsDir ⟨"/p"⟩) =
      .ok (["runs", ".autoqa", "p"], .directory) := rfl
  have hentry : ∀ e : DirEntry,
      (if e.kind = .directory then Node.directory else .file []).kind = e.kind := by
    rintro ⟨name, kind, modified⟩
    cases kind <;> rfl
  rw [Disk.entries, hfind]
  refine congrArg Except.ok ?_
  simp [diskWithEntries, List.filterMap_map, hentry]

/-- Two runs that were changed at one time, and a file that was changed after them. -/
def tiedEntries : List DirEntry :=
  [⟨"nightly", .directory, 7⟩, ⟨"noon", .directory, 7⟩, ⟨"notes.txt", .file, 9⟩]

theorem takenRun_latest_tied :
    (diskWithEntries tiedEntries).entries (Trace.runsDir ⟨"/p"⟩) = .ok tiedEntries ∧
      (tiedEntries.map DirEntry.name).Nodup ∧
      takenRun ⟨"/p"⟩ none (diskWithEntries tiedEntries) = .ok "noon" ∧
      takenRun ⟨"/p"⟩ none (diskWithEntries tiedEntries.reverse) = .ok "noon" ∧
      ∀ entry ∈ tiedEntries, entry.name = "noon" → entry.kind = .directory := by
  have hlisting := entries_diskWithEntries tiedEntries
  have hreverse := entries_diskWithEntries tiedEntries.reverse
  have hnames : (tiedEntries.map DirEntry.name).Nodup := by decide
  have hlatest : IsLatest tiedEntries ⟨"noon", .directory, 7⟩ := isLatest_of_latestRun? rfl
  obtain ⟨horder, hfound, hkind, -⟩ := takenRun_latest hlisting
  have hnoon := (hfound "noon").2 ⟨_, hlatest, rfl⟩
  refine ⟨hlisting, hnames, hnoon, ?_, hkind hnames "noon" hnoon⟩
  rw [horder _ _ hreverse (List.reverse_perm tiedEntries), hnoon]

end TraceExport.Project
