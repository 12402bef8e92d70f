import TraceExport.Project.Discovery
import TraceExport.Files.Disk
import TraceExport.Proofs.Location
import TraceExport.Proofs.Segment

/-!
Names of runs. The directory of a run is named after the run, and a run that is found by its
directory is named after the directory. A name that is made safe once more loses the
underscores at its end, which only a cut can leave there. So a run that is found on disk has
its own trace, unless its name was cut behind an underscore (`sanitize_again_iff`).
-/

namespace TraceExport.Text

theorem getLast?_trimEndOf_ne {p : Char → Bool} {c : Char} (hc : p c = true) (s : List Char) :
    (trimEndOf p s).getLast? ≠ some c := by
  intro h
  have hnot := List.head?_dropWhile_not p s.reverse
  rw [trimEndOf, List.getLast?_reverse] at h
  rw [h] at hnot
  simp [hc] at hnot

end TraceExport.Text

namespace TraceExport.Segment

/-! ### Safe names that are made safe -/

/-- The name for a text is cut right behind an underscore. -/
def IsCutBehindScore (text : String) : Prop := (uncut text.toList)[maxLength - 1]? = some '_'

instance (text : String) : Decidable (IsCutBehindScore text) := inferInstanceAs (Decidable (_ = _))

/-- Of a safe name, only underscores at its end are lost. -/
theorem sanitize_of_isSafe {name : String} (h : IsSafe name.toList) :
    sanitize name = String.ofList (Text.trimEndOf (· == '_') name.toList) := by
  have hsafe : ∀ c ∈ name.toList, isUnsafe c = false ∧ isSeparator c = false := by
    intro c hc
    have hallowed := h.allowed c hc
    simp_all [forbidden, isUnsafe, isSeparator]
  have hne : Text.trimEndOf (· == '_') name.toList ≠ [] := by
    obtain ⟨c, s, hs⟩ := List.exists_cons_of_ne_nil h.ne_nil
    have hc : c ≠ '_' := (h.first c (by rw [hs]; rfl)).2
    have hkept := Text.trimEndOf_append (p := (· == '_')) (beq_false_of_ne hc) [] s
    rw [List.nil_append] at hkept
    rw [hs, hkept]
    simp
  unfold sanitize
  rw [characters_of_safe hsafe h.noParent h.first h.length]
  split
  · rename_i hnil
    exact absurd hnil hne
  · rfl

/-- Only a cut leaves an underscore at the end of a name. -/
theorem last_sanitize_iff {text : String} :
    (sanitize text).toList.getLast? = some '_' ↔ IsCutBehindScore text := by
  have hlast : (uncut text.toList).getLast? ≠ some '_' := Text.getLast?_trimEndOf_ne rfl _
  have hcut : ((uncut text.toList).take maxLength).getLast? = some '_' ↔
      IsCutBehindScore text := by
    unfold IsCutBehindScore
    rcases Nat.lt_or_ge (uncut text.toList).length maxLength with hshort | hlong
    · have hnone : (uncut text.toList)[maxLength - 1]? = none :=
        List.getElem?_eq_none (by omega)
      rw [List.take_of_length_le (Nat.le_of_lt hshort), hnone]
      simp [hlast]
    · rw [List.getLast?_eq_getElem?, List.length_take, Nat.min_eq_left hlong,
        List.getElem?_take_of_lt (by decide)]
  rw [← hcut, ← characters_eq]
  unfold sanitize
  split
  · rename_i hnil
    rw [hnil]
    decide
  · rw [String.toList_ofList]

theorem sanitize_sanitize_iff {text : String} :
    sanitize (sanitize text) = sanitize text ↔ ¬ IsCutBehindScore text := by
  rw [sanitize_of_isSafe (isSafe_sanitize text), ← last_sanitize_iff]
  constructor
  · intro h hscore
    rw [← h, String.toList_ofList] at hscore
    exact Text.getLast?_trimEndOf_ne rfl _ hscore
  · intro h
    rw [Text.trimEndOf_eq_self, String.ofList_toList]
    intro c hc
    rw [beq_eq_false_iff_ne]
    rintro rfl
    exact h hc

end TraceExport.Segment

namespace TraceExport.Export

open Segment

/-- The traces of two runs are apart if their names are. -/
theorem tracePath_eq_iff {cwd : Path} {runId runId' : String} :
    Trace.path cwd runId = Trace.path cwd runId' ↔ sanitize runId = sanitize runId' := by
  constructor
  · intro h
    have hcomponents := congrArg Path.components h
    rw [components_tracePath, components_tracePath] at hcomponents
    simpa using hcomponents
  · intro h
    rw [Trace.path, h, Trace.path]

end TraceExport.Export

namespace TraceExport.Project

open Segment

/-! ### Runs on disk -/

/-- A fold that keeps what it has or takes the next ends with one that it was given. -/
theorem foldl_choice {α : Type} {f : Option α → α → Option α} {last : α}
    (hf : ∀ latest a, f latest a = some last → latest = some last ∨ a = last) {as : List α}
    {latest : Option α} (h : as.foldl f latest = some last) : latest = some last ∨ last ∈ as := by
  induction as generalizing latest with
  | nil => exact .inl h
  | cons a as ih =>
      rcases ih h with hfirst | hrest
      · rcases hf latest a hfirst with hkept | rfl
        · exact .inl hkept
        · exact .inr List.mem_cons_self
      · exact .inr (List.mem_cons_of_mem a hrest)

theorem latestRun?_mem {entries : List DirEntry} {run : DirEntry}
    (h : latestRun? entries = some run) : run ∈ entries ∧ run.kind = .directory := by
  have hmem := (foldl_choice (fun latest a hkept => ?_) h).resolve_left (by simp)
  · simpa using hmem
  · cases latest with
    | none => exact .inr (Option.some.inj hkept)
    | some best =>
        simp only at hkept
        split at hkept
        · exact .inr (Option.some.inj hkept)
        · exact .inl hkept

/-- What is found without a name, by what the directory of runs holds. -/
theorem run_resolveRun (cwd : Path) (d : Disk) :
    ((resolveRun cwd none : StateM Disk _) d).1 =
      match d.entries (Trace.runsDir cwd) with
      | .error e => .error (.noRunsDirectory (Path.shown cwd (Trace.runsDir cwd)) e)
      | .ok entries =>
        match latestRun? entries with
        | some run => .ok run.name
        | none => .error .noRuns := by
  have hentries : (FileSystem.entries (Trace.runsDir cwd) : StateM Disk _) d =
      (d.entries (Trace.runsDir cwd), d) := rfl
  simp only [resolveRun, bind, StateT.bind, hentries]
  cases d.entries (Trace.runsDir cwd) with
  | error e => rfl
  | ok entries =>
      simp only
      cases latestRun? entries <;> rfl

theorem of_resolveRun {cwd : Path} {d : Disk} {name : String}
    (h : ((resolveRun cwd none : StateM Disk _) d).1 = .ok name) :
    ∃ entries, d.entries (Trace.runsDir cwd) = .ok entries ∧
      ∃ run ∈ entries, run.kind = .directory ∧ run.name = name := by
  rw [run_resolveRun] at h
  cases hentries : d.entries (Trace.runsDir cwd) with
  | error e => simp [hentries] at h
  | ok entries =>
      cases hlatest : latestRun? entries with
      | none => simp [hentries, hlatest] at h
      | some run =>
          obtain ⟨hmem, hkind⟩ := latestRun?_mem hlatest
          exact ⟨entries, rfl, run, hmem, hkind, by simpa [hentries, hlatest] using h⟩

/-- Every directory of a run was made for a run of a kind, under its name. -/
def MadeFor (recorded : String → Prop) (cwd : Path) (d : Disk) : Prop :=
  ∀ entries, d.entries (Trace.runsDir cwd) = .ok entries →
    ∀ e ∈ entries, e.kind = .directory → ∃ runId, recorded runId ∧ e.name = sanitize runId

/-- A name stays the same when it is made safe again, unless it was cut behind an underscore.
So the run that is found on disk is one that was recorded, and has the trace of every run that
it is named after, with the same exception. -/
theorem sanitize_again_iff (text : String) (cwd : Path) (recorded : String → Prop) (d : Disk)
    (name : String) :
    (sanitize (sanitize text) = sanitize text ↔ ¬ IsCutBehindScore text) ∧
      (MadeFor recorded cwd d → ((resolveRun cwd none : StateM Disk _) d).1 = .ok name →
        (∃ runId, recorded runId ∧ name = sanitize runId) ∧
          ∀ runId, name = sanitize runId →
            (Trace.path cwd name = Trace.path cwd runId ↔ ¬ IsCutBehindScore runId)) := by
  refine ⟨sanitize_sanitize_iff, fun hmade hrun => ⟨?_, ?_⟩⟩
  · obtain ⟨entries, hentries, run, hmem, hkind, rfl⟩ := of_resolveRun hrun
    exact hmade entries hentries run hmem hkind
  · rintro runId rfl
    rw [Export.tracePath_eq_iff, sanitize_sanitize_iff]

/-- A project with the directory of one run. -/
def diskWithRun (name : String) : Disk where
  nodes := [⟨["p"], .directory, 0⟩, ⟨[".autoqa", "p"], .directory, 0⟩,
    ⟨["runs", ".autoqa", "p"], .directory, 0⟩, ⟨[name, "runs", ".autoqa", "p"], .directory, 0⟩]
  clock := 1

theorem sanitize_again_iff_nightly :
    sanitize (sanitize "nightly/7") = sanitize "nightly/7" ∧
      MadeFor (· = "nightly/7") ⟨"/p"⟩ (diskWithRun "nightly_7") ∧
      ((resolveRun ⟨"/p"⟩ none : StateM Disk _) (diskWithRun "nightly_7")).1 = .ok "nightly_7" ∧
      Trace.path ⟨"/p"⟩ "nightly_7" = Trace.path ⟨"/p"⟩ "nightly/7" := by
  have hname : "nightly_7" = sanitize "nightly/7" := by decide +kernel
  have hcut : ¬ IsCutBehindScore "nightly/7" := by decide +kernel
  have hmade : MadeFor (· = "nightly/7") ⟨"/p"⟩ (diskWithRun "nightly_7") := by
    have hdisk : (diskWithRun "nightly_7").entries (Trace.runsDir ⟨"/p"⟩) =
        .ok [⟨"nightly_7", .directory, 0⟩] := rfl
    intro entries hentries e he _
    rw [hdisk] at hentries
    cases hentries
    obtain rfl := List.mem_singleton.1 he
    exact ⟨_, rfl, hname⟩
  have hrun : ((resolveRun ⟨"/p"⟩ none : StateM Disk _) (diskWithRun "nightly_7")).1 =
      .ok "nightly_7" := rfl
  obtain ⟨hagain, hfound⟩ :=
    sanitize_again_iff "nightly/7" ⟨"/p"⟩ (· = "nightly/7") (diskWithRun "nightly_7") "nightly_7"
  exact ⟨hagain.2 hcut, hmade, hrun, ((hfound hmade hrun).2 _ hname).2 hcut⟩

/-- The id of a run that is cut behind an underscore. -/
def longRunId : String := String.ofList (List.replicate 199 'a' ++ ['_', 'b'])

theorem isCutBehindScore_longRunId : IsCutBehindScore longRunId := by
  obtain ⟨front, hfront, hlength, hall⟩ : ∃ front, longRunId = String.ofList ('a' :: front ++
      ['_', 'b']) ∧ front.length = 198 ∧ ∀ c ∈ front, c = 'a' :=
    ⟨List.replicate 198 'a', rfl, List.length_replicate, fun _ => List.eq_of_mem_replicate⟩
  have hmem : ∀ c ∈ 'a' :: front ++ ['_', 'b'], c = 'a' ∨ c = '_' ∨ c = 'b' := by
    simp only [List.cons_append, List.mem_cons, List.mem_append, List.not_mem_nil]
    grind
  have hsafe : ∀ c ∈ 'a' :: front ++ ['_', 'b'], isUnsafe c = false ∧ isSeparator c = false := by
    intro c hc
    rcases hmem c hc with rfl | rfl | rfl <;> decide
  have hparent : ¬ ['.', '.'] <:+: 'a' :: front ++ ['_', 'b'] := fun h =>
    absurd (hmem '.' (h.subset List.mem_cons_self)) (by decide)
  have hlast : Text.trimEndOf (· == '_') ('a' :: front ++ ['_', 'b']) =
      'a' :: front ++ ['_', 'b'] := by
    refine Text.trimEndOf_eq_self fun c hc => ?_
    rw [List.getLast?_append_of_ne_nil _ (by simp)] at hc
    cases hc
    rfl
  rw [IsCutBehindScore, hfront, String.toList_ofList, uncut_of_safe hsafe hparent (by simp), hlast,
    List.getElem?_append_right (by simp [hlength, maxLength])]
  simp [hlength, maxLength]

/-- The trace of a run whose name is cut is not found under the name of its directory. -/
theorem sanitize_cut :
    ((resolveRun ⟨"/p"⟩ none : StateM Disk _) (diskWithRun (sanitize longRunId))).1 =
        .ok (sanitize longRunId) ∧
      sanitize (sanitize longRunId) ≠ sanitize longRunId ∧
      Trace.path ⟨"/p"⟩ (sanitize longRunId) ≠ Trace.path ⟨"/p"⟩ longRunId := by
  have hother : sanitize (sanitize longRunId) ≠ sanitize longRunId := fun h =>
    sanitize_sanitize_iff.1 h isCutBehindScore_longRunId
  exact ⟨rfl, hother, mt Export.tracePath_eq_iff.1 hother⟩

end TraceExport.Project
