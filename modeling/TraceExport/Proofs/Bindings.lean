import TraceExport.Proofs.Declaring
import TraceExport.Proofs.Tally

/-!
The names that a script binds. They come from three sides: the file itself, the
variables that are read from the environment, and the declarations of the
statements. The registry starts with the first two and grows by each name that
is claimed, so no declaration gets a name that was bound before
(`boundNames_written`); the variables are kept apart by the tally.
-/

namespace TraceExport.Script

/-! ### Names of statements -/

theorem used_subset_distinguish (code : String) (r : Registry) :
    r.used ⊆ (distinguish code r).2.used := by
  unfold distinguish
  cases declaredName? code with
  | none => exact List.Subset.refl _
  | some name => exact List.subset_cons_self _ _

/-- The code of a declaring statement declares a name that was free, and takes
it. -/
theorem declaredName?_distinguish {s : Statement} {name : String}
    (hname : s.binding? = some name) (hbind : IsBindable name) (r : Registry) :
    declaredName? (distinguish s.code r).1 = some (r.freeName name) ∧
      r.freeName name ∉ r.used ∧ r.freeName name ∈ (distinguish s.code r).2.used := by
  rw [distinguish_of_binding? hname hbind]
  refine ⟨?_, r.freeName_not_mem name, List.mem_cons_self⟩
  show declaredName? (if r.freeName name = name then s.code
    else rename name (r.freeName name) s.code) = some (r.freeName name)
  split
  · rename_i hfree
    rw [hfree, Statement.declaredName?_of_binding? hname hbind]
  · rename_i htaken
    have hmem : name ∈ r.used := by
      by_contra hnot
      exact htaken (Registry.freeName_eq_self_iff.2 hnot)
    have hnew := (Registry.freeName_of_mem hbind hmem).1
    exact Statement.declaredName?_rename hname hbind hnew

/-- Statements with the code that is written for them. -/
def written (r : Registry) : List Statement → List (Statement × String)
  | [] => []
  | s :: ss => (s, (distinguish s.code r).1) :: written (distinguish s.code r).2 ss

def taken (r : Registry) (ss : List Statement) : Registry :=
  ss.foldl (fun r s => (distinguish s.code r).2) r

theorem written_append (r : Registry) (ss ts : List Statement) :
    written r (ss ++ ts) = written r ss ++ written (taken r ss) ts := by
  induction ss generalizing r with
  | nil => rfl
  | cons s ss ih =>
      rw [List.cons_append, written, ih]
      rfl

/-- The names that the declaring statements bind, as they are found in the code. -/
def boundNames (ws : List (Statement × String)) : List (Option String) :=
  (ws.filter fun w => w.1.binding?.isSome).map fun w => declaredName? w.2

/-- All declarations bind names, each another one, and none that was taken. -/
theorem boundNames_written {ss : List Statement}
    (hss : ∀ s ∈ ss, ∀ name, s.binding? = some name → IsBindable name) (r : Registry) :
    ∃ names : List String, boundNames (written r ss) = names.map some ∧ names.Nodup ∧
      ∀ name ∈ names, name ∉ r.used := by
  induction ss generalizing r with
  | nil => exact ⟨[], rfl, List.nodup_nil, by simp⟩
  | cons s ss ih =>
      -- The later names avoid all that is taken once this statement has its name.
      obtain ⟨names, hbound, hnodup, hfree⟩ :=
        ih (fun t ht => hss t (List.mem_cons_of_mem s ht)) (distinguish s.code r).2
      have hkept := used_subset_distinguish s.code r
      have hfree' : ∀ name ∈ names, name ∉ r.used :=
        fun name hname hmem => hfree name hname (hkept hmem)
      cases hbinding : s.binding? with
      | none =>
          refine ⟨names, ?_, hnodup, hfree'⟩
          rw [written, ← hbound]
          simp [boundNames, hbinding]
      | some name =>
          have hbind := hss s List.mem_cons_self name hbinding
          obtain ⟨hdeclared, hnew, htaken⟩ := declaredName?_distinguish hbinding hbind r
          refine ⟨r.freeName name :: names, ?_, List.nodup_cons.2 ⟨?_, hnodup⟩,
            List.forall_mem_cons.2 ⟨hnew, hfree'⟩⟩
          · rw [written, List.map_cons, ← hbound, ← hdeclared]
            simp [boundNames, hbinding]
          · exact fun hmem => hfree _ hmem htaken

end TraceExport.Script

namespace TraceExport.Replay

open Script Spec Trace

/-! ### Names of a test -/

/-- The statements of a draft that have code. -/
def Draft.statements (d : Draft) : List Statement :=
  if d.results.isEmpty then
    [.todo ("Step " ++ toString d.index ++ " - No IR record found for: " ++ d.comment)]
  else (d.results.filterMap fun r => r.2.toOption).filter (·.code != "")

theorem fragments_eq_map_code (d : Draft) : d.fragments = d.statements.map Statement.code := by
  unfold Draft.fragments Draft.statements
  split
  · rfl
  · rw [List.filter_map]
    rfl

/-- The drafts with the code that is written for their statements. -/
def writtenSteps (r : Registry) : List Draft → List (Draft × List (Statement × String))
  | [] => []
  | d :: ds => (d, written r d.statements) :: writtenSteps (taken r d.statements) ds

/-- The block of a step, if the step has code. -/
def block? (step : Draft × List (Statement × String)) : Option Block :=
  if step.2.isEmpty then none
  else some ⟨step.1.index, step.1.comment, "\n".intercalate (step.2.map Prod.snd)⟩

theorem distinguishAll_eq_written (r : Registry) (ss : List Statement) :
    distinguishAll r (ss.map Statement.code) = ((written r ss).map Prod.snd, taken r ss) := by
  induction ss generalizing r with
  | nil => rfl
  | cons s ss ih =>
      rw [List.map_cons, distinguishAll]
      simp only [ih]
      rfl

theorem isEmpty_written (r : Registry) (ss : List Statement) :
    (written r ss).isEmpty = ss.isEmpty := by
  cases ss <;> rfl

theorem blocks_eq_writtenSteps (r : Registry) (ds : List Draft) :
    blocks r ds = (writtenSteps r ds).filterMap block? := by
  induction ds generalizing r with
  | nil => rfl
  | cons d ds ih =>
      rw [blocks, writtenSteps, fragments_eq_map_code, List.isEmpty_map]
      split
      · rename_i hempty
        have htaken : taken r d.statements = r := by simp [List.isEmpty_iff.1 hempty, taken]
        rw [List.filterMap_cons_none (by simp [block?, isEmpty_written, hempty]), htaken, ih]
      · rename_i hempty
        rw [distinguishAll_eq_written]
        simp [block?, isEmpty_written, hempty, ih]

theorem flatMap_writtenSteps (r : Registry) (ds : List Draft) :
    (writtenSteps r ds).flatMap Prod.snd = written r (ds.flatMap Draft.statements) := by
  induction ds generalizing r with
  | nil => rfl
  | cons d ds ih => rw [writtenSteps, List.flatMap_cons, List.flatMap_cons, ih, written_append]

theorem isBindable_of_mem_statements {spec : Spec} {records : List Record} {sources : StepSources}
    {base : Context} {d : Draft} (hd : d ∈ drafts spec records sources base) {s : Statement}
    (hs : s ∈ d.statements) {name : String} (hname : s.binding? = some name) : IsBindable name := by
  obtain ⟨step, -, rfl⟩ := List.mem_map.1 hd
  unfold Draft.statements at hs
  split at hs
  · rw [List.mem_singleton.1 hs] at hname
    simp [Statement.binding?] at hname
  · obtain ⟨hs, -⟩ := List.mem_filter.1 hs
    obtain ⟨result, hresult, hok⟩ := List.mem_filterMap.1 hs
    obtain ⟨r, -, rfl⟩ := List.mem_map.1 hresult
    exact Statement.isBindable_of_isDeclaring (isDeclaring_of_generate (toOption_eq_some.1 hok) hname) hname

/-- The names that are spoken for when the declarations get theirs. -/
def seed (ds : List Draft) : Registry := Registry.seeded ((tally ds).bindings.map Prod.fst)

/-- The steps of a test with the code that is written for them. -/
def plannedSteps (spec : Spec) (records : List Record) (sources : StepSources) (base : Context) :
    List (Draft × List (Statement × String)) :=
  writtenSteps (seed (drafts spec records sources base)) (drafts spec records sources base)

/-- A variable that some statement of the drafts needs. -/
def IsNeeded (ds : List Draft) (var : String) : Prop :=
  ∃ d ∈ ds, ∃ result ∈ d.results, ∃ s, result.2 = .ok s ∧ var ∈ s.needs.envVars

theorem plan_eq_ok {spec : Spec} {records : List Record} {sources : StepSources} {base : Context}
    {p : Plan} : plan spec records sources base = .ok p ↔
      (tally (drafts spec records sources base)).errors = [] ∧
        p = ⟨(plannedSteps spec records sources base).filterMap block?,
          (tally (drafts spec records sources base)).needs⟩ := by
  unfold plan
  simp only
  split
  · rename_i herrors
    rw [Except.ok.injEq, blocks_eq_writtenSteps, and_iff_right (List.isEmpty_iff.1 herrors)]
    exact eq_comm
  · rename_i herrors
    simp [List.isEmpty_iff.not.1 herrors]

/-- The bindings of the variables differ from each other and from the names of the
file, and the declarations steer clear of them. -/
theorem nodup_seed {ds : List Draft} (herrors : (tally ds).errors = []) :
    (fileBindings ++ (tally ds).needs.envVars.map variableName).Nodup ∧
      ∀ name ∈ fileBindings ++ (tally ds).needs.envVars.map variableName,
        name ∈ (seed ds).used := by
  have hsound := sound_tally ds
  constructor
  · refine List.nodup_append.2 ⟨by decide, ?_, ?_⟩
    · refine List.Nodup.map_on (fun v hv w hw heq => ?_) (hsound.sorted.imp String.ne_of_lt)
      exact hsound.variableName_inj herrors hv hw heq
    · rintro name hname _ hvar rfl
      obtain ⟨var, hneeded, rfl⟩ := List.mem_map.1 hvar
      exact variableName_not_mem_fileBindings (hsound.foreign var hneeded) hname
  · intro name hname
    rcases List.mem_append.1 hname with hname | hname
    · exact List.mem_append_left _ hname
    · obtain ⟨var, hneeded, rfl⟩ := List.mem_map.1 hname
      exact List.mem_append_right _ (List.mem_map_of_mem (hsound.bound herrors var hneeded))

/-- No name is declared twice in a test: the names of the file, the bindings of the
variables that it reads, and the names that its statements declare are all
different, and different variables have different bindings. Where two variables
that are needed would share a binding, there is no test. -/
theorem plan_declares_once (spec : Spec) (records : List Record) (sources : StepSources)
    (base : Context) :
    (∀ p, plan spec records sources base = .ok p →
      p.blocks = (plannedSteps spec records sources base).filterMap block? ∧
        ∃ names : List String,
          boundNames ((plannedSteps spec records sources base).flatMap Prod.snd) =
            names.map some ∧
          (fileBindings ++ p.needs.envVars.map variableName ++ names).Nodup ∧
          ∀ v ∈ p.needs.envVars, ∀ w ∈ p.needs.envVars,
            variableName v = variableName w → v = w) ∧
      ∀ v w, IsNeeded (drafts spec records sources base) v →
        IsNeeded (drafts spec records sources base) w → v ≠ w →
          variableName v = variableName w →
            ∃ errors, plan spec records sources base = .error errors := by
  constructor
  · intro p hp
    obtain ⟨herrors, rfl⟩ := plan_eq_ok.1 hp
    obtain ⟨hnodup, hseed⟩ := nodup_seed herrors
    have hbindable : ∀ s ∈ (drafts spec records sources base).flatMap Draft.statements,
        ∀ name, s.binding? = some name → IsBindable name := by
      intro s hs name hname
      obtain ⟨d, hd, hs⟩ := List.mem_flatMap.1 hs
      exact isBindable_of_mem_statements hd hs hname
    obtain ⟨names, hbound, hnames, hfree⟩ :=
      boundNames_written hbindable (seed (drafts spec records sources base))
    refine ⟨rfl, names, ?_, List.nodup_append.2 ⟨hnodup, hnames, ?_⟩, fun v hv w hw heq => ?_⟩
    · rw [plannedSteps, flatMap_writtenSteps, hbound]
    · rintro name hname _ hdeclared rfl
      exact hfree name hdeclared (hseed name hname)
    · exact (sound_tally _).variableName_inj herrors hv hw heq
  · intro v w hv hw hne heq
    cases hplan : plan spec records sources base with
    | error errors => exact ⟨errors, rfl⟩
    | ok p =>
        obtain ⟨herrors, -⟩ := plan_eq_ok.1 hplan
        exact absurd ((sound_tally _).variableName_inj herrors (mem_envVars_tally.2 hv)
          (mem_envVars_tally.2 hw) heq) hne

/-- A variable whose binding is `account`, and a text whose place is named so too. -/
def accountRun : List Record :=
  [⟨"run-1", "specs/a.md", some 1, .fill,
      ⟨[("fillValue", .object [("kind", .string "template_var"), ("name", .string "ACCOUNT")])]⟩,
      ⟨true, none, none⟩,
      some ⟨default, [], some ⟨"css", "#a", "page.locator('#a')", ⟨true, none, none⟩⟩⟩, none, 0⟩,
    ⟨"run-1", "specs/a.md", some 2, .assertText,
      ⟨[("text", .string "Account"), ("visibleNth", .integer 0)]⟩, ⟨true, none, none⟩, none,
      none, 1⟩]

def accountSpec : Spec where
  preconditions := []
  steps := [⟨1, "Fill in the account", .action⟩, ⟨2, "Verify the account", .assertion⟩]

theorem plan_declares_once_account :
    ∃ p, plan accountSpec accountRun [] ⟨"https://app.test", none, none⟩ = .ok p ∧
      boundNames ((plannedSteps accountSpec accountRun []
        ⟨"https://app.test", none, none⟩).flatMap Prod.snd) = [some "account2"] ∧
      (fileBindings ++ p.needs.envVars.map variableName ++ ["account2"]).Nodup := by
  have hok : (plan accountSpec accountRun [] ⟨"https://app.test", none, none⟩).toOption.isSome := by
    decide +kernel
  have hbound : boundNames ((plannedSteps accountSpec accountRun []
      ⟨"https://app.test", none, none⟩).flatMap Prod.snd) = [some "account2"] := by
    decide +kernel
  cases hplan : plan accountSpec accountRun [] ⟨"https://app.test", none, none⟩ with
  | error errors => simp [hplan, Except.toOption] at hok
  | ok p =>
      obtain ⟨-, names, hnames, hnodup, -⟩ := (plan_declares_once _ _ _ _).1 p hplan
      have hlist : names = ["account2"] := by
        have hsome : names.map some = ["account2"].map some := hnames.symm.trans hbound
        exact (List.map_inj_right fun _ _ => Option.some.inj).1 hsome
      exact ⟨p, rfl, hbound, hlist ▸ hnodup⟩

end TraceExport.Replay
