import TraceExport.Proofs.Bindings

/-!
The walk through a test: the steps in the order of the specification, and the
records of each step in the order of the trace. A record that cannot be replayed
is a failure; any other asks for the variables that its statement needs. All that
a plan says is read off this walk (`plan_accounts`): its errors are the faults on
the way, one for each failure and one for each variable that comes to a binding
after another variable, and none is dropped.

The tally of a test is gathered result by result. `Follows` ties it to the part of
the walk that lies behind.
-/

namespace TraceExport.Replay

open Script Spec Trace

def Context.ofStep (base : Context) (sources : StepSources) (step : Step) : Context :=
  { base with source := sources.get? step.index }

/-- The records on the walk, each with what replaying it gives. -/
def walk (spec : Spec) (records : List Record) (sources : StepSources) (base : Context) :
    List (Record × Except Error Statement) :=
  spec.steps.flatMap fun step =>
    (recordsOfStep records step.index).map fun r => (r, generate r (base.ofStep sources step))

inductive Event where
  | failure (e : Error)
  | need (r : Record) (var : String)

namespace Event

def ofResult : Record × Except Error Statement → List Event
  | (_, .error e) => [failure e]
  | (r, .ok s) => s.needs.envVars.map (need r)

def var? : Event → Option String
  | need _ var => some var
  | failure _ => none

/-- The variable that came to a binding first. -/
def owner? (before : List Event) (name : String) : Option String :=
  (before.filterMap var?).find? (variableName · == name)

/-- What is wrong with an event, given those before it. -/
def fault? (before : List Event) : Event → Option Error
  | failure e => some e
  | need r var =>
    ((owner? before (variableName var)).filter (· ≠ var)).map fun first =>
      Error.of r (.sharedName first var (variableName var))

/-- The faults of some events, in their order. -/
def faults (es : List Event) : List Error :=
  es.zipIdx.filterMap fun e => e.1.fault? (es.take e.2)

theorem owner?_append_need (es : List Event) (r : Record) (var name : String) :
    owner? (es ++ [need r var]) name =
      (owner? es name).or (if variableName var = name then some var else none) := by
  simp only [owner?, List.filterMap_append, List.find?_append]
  by_cases h : variableName var = name <;> simp [var?, h]

theorem owner?_append_failure (es : List Event) (e : Error) (name : String) :
    owner? (es ++ [failure e]) name = owner? es name := by
  simp [owner?, var?]

theorem faults_append (es : List Event) (e : Event) :
    faults (es ++ [e]) = faults es ++ (e.fault? es).toList := by
  -- The earlier events have the same ones before them as without the last.
  have hkept : es.zipIdx.filterMap (fun e' => e'.1.fault? ((es ++ [e]).take e'.2)) = faults es := by
    refine List.filterMap_congr fun e' he' => ?_
    have hlt : e'.2 < es.length := by
      have := List.snd_lt_of_mem_zipIdx he'
      simpa using this
    rw [List.take_append_of_le_length (Nat.le_of_lt hlt)]
  rw [faults, List.zipIdx_append, List.filterMap_append, hkept]
  cases hfault : e.fault? es <;> simp [hfault]

/-- Nothing is wrong on the way iff nothing fails and no variable comes to a
binding after another one. -/
theorem faults_eq_nil_iff {es : List Event} : faults es = [] ↔
    (∀ e, failure e ∉ es) ∧ ∀ before r var after, es = before ++ need r var :: after →
      ∀ first, owner? before (variableName var) = some first → first = var := by
  have hnone : faults es = [] ↔
      ∀ before e after, es = before ++ e :: after → e.fault? before = none := by
    rw [faults, List.filterMap_eq_nil_iff]
    constructor
    · rintro h before e after rfl
      have hmem : (e, before.length) ∈ (before ++ e :: after).zipIdx := by
        simp [List.mem_zipIdx_iff_getElem?]
      simpa using h _ hmem
    · rintro h ⟨e, i⟩ hmem
      have hat : es[i]? = some e := List.mem_zipIdx_iff_getElem?.1 hmem
      obtain ⟨hlt, rfl⟩ := List.getElem?_eq_some_iff.1 hat
      exact h (es.take i) es[i] (es.drop (i + 1)) (by simp)
  rw [hnone]
  constructor
  · intro h
    refine ⟨fun e hmem => ?_, fun before r var after hes first hfirst => ?_⟩
    · obtain ⟨before, after, hes⟩ := List.append_of_mem hmem
      simpa [fault?] using h before (failure e) after hes
    · simpa [fault?, hfirst] using h before (need r var) after hes
  · rintro ⟨hfails, hneeds⟩ before e after hes
    cases e with
    | failure e => exact absurd (hes ▸ by simp) (hfails e)
    | need r var =>
        simpa [fault?] using hneeds before r var after hes

end Event

open Event

/-! ### The tally on the walk -/

/-- A tally that has gathered some events. -/
structure Tally.Follows (t : Tally) (es : List Event) : Prop where
  errors : t.errors = faults es
  owners : ∀ name, (t.bindings.find? (·.1 == name)).map Prod.snd = owner? es name

namespace Tally

theorem follows_empty : empty.Follows [] := ⟨rfl, fun _ => rfl⟩

theorem Follows.fail {t : Tally} {es : List Event} (h : t.Follows es) (e : Error) :
    Follows { t with errors := t.errors ++ [e] } (es ++ [failure e]) where
  errors := by
    rw [faults_append, ← h.errors]
    rfl
  owners name := by rw [owner?_append_failure, ← h.owners]

theorem Follows.bind {t : Tally} {es : List Event} (h : t.Follows es) (r : Record)
    (var : String) : (t.bind r var).Follows (es ++ [need r var]) := by
  have howner := h.owners (variableName var)
  unfold Tally.bind
  simp only
  split
  · -- The variable comes first.
    rename_i hfind
    have hfirst : owner? es (variableName var) = none := by simpa [hfind] using howner.symm
    refine ⟨?_, fun name => ?_⟩
    · simp [faults_append, fault?, hfirst, h.errors]
    · rw [owner?_append_need, ← h.owners name, List.find?_append, Option.map_or]
      by_cases hname : variableName var = name <;> simp [hname]
  · rename_i bound first hfind
    have hfirst : owner? es (variableName var) = some first := by simpa [hfind] using howner.symm
    -- A binding that has an owner keeps it.
    have hkept : ∀ name, owner? (es ++ [need r var]) name = owner? es name := by
      intro name
      rw [owner?_append_need]
      split
      · rename_i hname
        rw [← hname, hfirst, Option.some_or]
      · exact Option.or_none
    split
    · rename_i heq
      refine ⟨?_, fun name => ?_⟩
      · simp [faults_append, fault?, hfirst, heq, h.errors]
      · rw [hkept, h.owners]
    · rename_i hne
      refine ⟨?_, fun name => ?_⟩
      · simp [faults_append, fault?, hfirst, hne, h.errors, Option.filter]
      · rw [hkept, h.owners]

theorem Follows.bindAll {t : Tally} {es : List Event} (h : t.Follows es) (r : Record)
    (vars : List String) : (t.bindAll r vars).Follows (es ++ vars.map (need r)) := by
  unfold Tally.bindAll
  induction vars generalizing t es with
  | nil => simpa using h
  | cons var vars ih => simpa using ih (h.bind r var)

theorem Follows.add {t : Tally} {es : List Event} (h : t.Follows es)
    (result : Record × Except Error Statement) :
    (t.add result).Follows (es ++ ofResult result) := by
  obtain ⟨r, e | s⟩ := result
  · exact h.fail e
  · have hbound := h.bindAll r s.needs.envVars
    exact ⟨hbound.errors, hbound.owners⟩

theorem Follows.foldl {t : Tally} {es : List Event} (h : t.Follows es)
    (results : List (Record × Except Error Statement)) :
    (results.foldl Tally.add t).Follows (es ++ results.flatMap ofResult) := by
  induction results generalizing t es with
  | nil => simpa using h
  | cons result results ih => simpa using ih (h.add result)

end Tally

variable {spec : Spec} {records : List Record} {sources : StepSources} {base : Context}

theorem results_drafts :
    (drafts spec records sources base).flatMap (·.results) = walk spec records sources base := by
  simp only [drafts, walk, List.flatMap_map]
  rfl

theorem errors_tally : (tally (drafts spec records sources base)).errors =
    faults ((walk spec records sources base).flatMap ofResult) := by
  have hfollows := Tally.follows_empty.foldl (walk spec records sources base)
  rw [tally, results_drafts]
  simpa using hfollows.errors

/-! ### The blocks -/

/-- The fragments of a step, before the names that they declare are made distinct:
those of its records that are not empty, or a note if it has no record. -/
def fragmentsOf (records : List Record) (sources : StepSources) (base : Context) (step : Step) :
    List String :=
  if recordsOfStep records step.index = [] then
    ["  // TODO: Step " ++ toString step.index ++ " - No IR record found for: " ++
      comment step.text (base.ofStep sources step)]
  else
    ((recordsOfStep records step.index).filterMap fun r =>
      (generate r (base.ofStep sources step)).toOption.map Statement.code).filter (· != "")

theorem fragments_ofStep (step : Step) :
    (Draft.ofStep records (base.ofStep sources step) step).fragments =
      fragmentsOf records sources base step := by
  unfold Draft.fragments fragmentsOf Draft.ofStep
  simp only [List.isEmpty_map, List.isEmpty_iff, List.filterMap_map, List.map_filterMap]
  rfl

theorem flatMap_fragments_drafts : (drafts spec records sources base).flatMap Draft.fragments =
    spec.steps.flatMap (fragmentsOf records sources base) := by
  simp only [drafts, List.flatMap_map]
  exact List.flatMap_congr fun step _ => fragments_ofStep step

theorem length_distinguishAll (r : Registry) (codes : List String) :
    (distinguishAll r codes).1.length = codes.length := by
  induction codes generalizing r with
  | nil => rfl
  | cons code codes ih => simp [distinguishAll, ih]

theorem distinguishAll_append (r : Registry) (codes more : List String) :
    (distinguishAll r (codes ++ more)).1 =
      (distinguishAll r codes).1 ++ (distinguishAll (distinguishAll r codes).2 more).1 := by
  induction codes generalizing r with
  | nil => rfl
  | cons code codes ih => simp [distinguishAll, ih]

/-- The blocks come from the steps with fragments, in their order, and hold the
fragments of these steps, in their order, with distinct names. -/
theorem blocks_eq_zip (r : Registry) (ds : List Draft) : ∃ codes : List (List String),
    codes.flatten = (distinguishAll r (ds.flatMap Draft.fragments)).1 ∧
      codes.map List.length = ds.map (·.fragments.length) ∧
      blocks r ds = ((ds.zip codes).filter fun x => !x.2.isEmpty).map fun x =>
        ⟨x.1.index, x.1.comment, "\n".intercalate x.2⟩ := by
  induction ds generalizing r with
  | nil => exact ⟨[], rfl, rfl, rfl⟩
  | cons d ds ih =>
      obtain ⟨codes, hflat, hlength, hblocks⟩ := ih (distinguishAll r d.fragments).2
      refine ⟨(distinguishAll r d.fragments).1 :: codes, ?_, ?_, ?_⟩
      · rw [List.flatten_cons, hflat, List.flatMap_cons, distinguishAll_append]
      · rw [List.map_cons, List.map_cons, hlength, length_distinguishAll]
      · rw [blocks, List.zip_cons_cons]
        cases hd : d.fragments with
        | nil =>
            rw [hd] at hblocks
            simpa [distinguishAll] using hblocks
        | cons code rest =>
            rw [hd] at hblocks
            simpa [distinguishAll] using hblocks

theorem blocks_drafts (spec : Spec) (records : List Record) (sources : StepSources)
    (base : Context) (r : Registry) : ∃ codes : List (List String),
    codes.flatten =
        (distinguishAll r (spec.steps.flatMap (fragmentsOf records sources base))).1 ∧
      codes.map List.length =
        spec.steps.map (fun step => (fragmentsOf records sources base step).length) ∧
      blocks r (drafts spec records sources base) =
        ((spec.steps.zip codes).filter fun x => !x.2.isEmpty).map fun x =>
          ⟨x.1.index, comment x.1.text (base.ofStep sources x.1), "\n".intercalate x.2⟩ := by
  obtain ⟨codes, hflat, hlength, hblocks⟩ := blocks_eq_zip r (drafts spec records sources base)
  refine ⟨codes, ?_, ?_, ?_⟩
  · rw [hflat, flatMap_fragments_drafts]
  · rw [hlength, drafts, List.map_map]
    refine List.map_congr_left fun step _ => ?_
    rw [← fragments_ofStep]
    rfl
  · rw [hblocks, drafts, List.zip_map_left, List.filter_map, List.map_map]
    rfl

/-! ### The needs -/

theorem mem_envVars_drafts {var : String} :
    var ∈ (tally (drafts spec records sources base)).needs.envVars ↔
      ∃ result ∈ walk spec records sources base, ∃ s, result.2 = .ok s ∧
        var ∈ s.needs.envVars := by
  have hempty : var ∉ Tally.empty.needs.envVars := List.not_mem_nil
  rw [tally, results_drafts, Tally.mem_envVars_foldl, or_iff_right hempty]

theorem loginBaseUrl_drafts :
    (tally (drafts spec records sources base)).needs.loginBaseUrl ↔
      ∃ result ∈ walk spec records sources base, ∃ s, result.2 = .ok s ∧
        s.needs.loginBaseUrl := by
  rw [tally, results_drafts, Tally.loginBaseUrl_foldl]
  simp [Tally.empty, Needs.none]

/-! ### The plan -/

theorem plan_eq_error {errors : List Error} : plan spec records sources base = .error errors ↔
    errors = (tally (drafts spec records sources base)).errors ∧ errors ≠ [] := by
  unfold plan
  simp only
  split
  · rename_i hnone
    constructor
    · rintro ⟨⟩
    · rintro ⟨rfl, hsome⟩
      exact absurd (List.isEmpty_iff.1 hnone) hsome
  · rename_i hsome
    rw [Except.error.injEq, eq_comm]
    refine ⟨fun h => ⟨h, ?_⟩, And.left⟩
    rw [h]
    exact mt List.isEmpty_iff.2 hsome

theorem drafts_congr {records' : List Record} (h : ∀ step ∈ spec.steps,
    recordsOfStep records' step.index = recordsOfStep records step.index) :
    drafts spec records' sources base = drafts spec records sources base := by
  refine List.map_congr_left fun step hstep => ?_
  simp only [Draft.ofStep, h step hstep]

/-- A plan accounts for all records of its steps. There is one iff nothing fails on
the walk and no variable comes to a binding after another one; the errors are
otherwise the faults on the way, in their order. Its blocks are the steps with a
fragment, and its needs are those of all statements. Nothing else of the trace
counts. -/
theorem plan_accounts (spec : Spec) (records : List Record) (sources : StepSources)
    (base : Context) :
    let es := (walk spec records sources base).flatMap ofResult
    ((∃ p, plan spec records sources base = .ok p) ↔
      (∀ e, .failure e ∉ es) ∧ ∀ before r var after, es = before ++ .need r var :: after →
        ∀ first, owner? before (variableName var) = some first → first = var) ∧
    (∀ errors, plan spec records sources base = .error errors ↔
      errors = faults es ∧ errors ≠ []) ∧
    (∀ p, plan spec records sources base = .ok p →
      (∃ codes : List (List String),
        codes.flatten = (distinguishAll (seed (drafts spec records sources base))
          (spec.steps.flatMap (fragmentsOf records sources base))).1 ∧
        codes.map List.length =
          spec.steps.map (fun step => (fragmentsOf records sources base step).length) ∧
        p.blocks = ((spec.steps.zip codes).filter fun x => !x.2.isEmpty).map fun x =>
          ⟨x.1.index, comment x.1.text (base.ofStep sources x.1), "\n".intercalate x.2⟩) ∧
      p.needs.envVars.Pairwise (· < ·) ∧
      (∀ var, var ∈ p.needs.envVars ↔ ∃ result ∈ walk spec records sources base,
        ∃ s, result.2 = .ok s ∧ var ∈ s.needs.envVars) ∧
      (p.needs.loginBaseUrl ↔ ∃ result ∈ walk spec records sources base,
        ∃ s, result.2 = .ok s ∧ s.needs.loginBaseUrl)) ∧
    ∀ records', (∀ step ∈ spec.steps,
        recordsOfStep records' step.index = recordsOfStep records step.index) →
      plan spec records' sources base = plan spec records sources base := by
  refine ⟨?_, fun errors => ?_, fun p hp => ?_, fun records' h => ?_⟩
  · rw [← faults_eq_nil_iff, ← errors_tally]
    simp only [plan_eq_ok]
    exact ⟨fun ⟨_, h, _⟩ => h, fun h => ⟨_, h, rfl⟩⟩
  · rw [plan_eq_error, errors_tally]
  · obtain ⟨-, rfl⟩ := plan_eq_ok.1 hp
    refine ⟨?_, (sound_tally _).sorted, fun var => mem_envVars_drafts, loginBaseUrl_drafts⟩
    obtain ⟨codes, hflat, hlength, hblocks⟩ :=
      blocks_drafts spec records sources base (seed (drafts spec records sources base))
    refine ⟨codes, hflat, hlength, ?_⟩
    rw [← hblocks, blocks_eq_writtenSteps]
    rfl
  · simp only [plan, drafts_congr h]

/-- A record of a variable that is typed into an element. -/
def typed (step : Option Nat) (ok : Bool) (var : String) : Record where
  runId := "run-1"
  specPath := "specs/a.md"
  step := step
  tool := .fill
  input := ⟨[("fillValue", .object [("kind", .string "template_var"), ("name", .string var)])]⟩
  outcome := ⟨ok, none, none⟩
  element := some ⟨default, [], some ⟨"css", "#a", "page.locator('#a')", ⟨true, none, none⟩⟩⟩
  pageUrl := none
  timestamp := 0

/-- The run of the account, its steps in another order, with a record that went
wrong, one of an unknown step and one of no step. -/
def noisyRun : List Record :=
  [typed (some 9) true "IF"] ++ accountRun.reverse ++
    [typed (some 2) false "IF", typed none true "IF"]

/-- Two variables with one binding, and an address that was not recorded. -/
def clashingRun : List Record :=
  [typed (some 1) true "IF", { typed (some 1) true "" with tool := .navigate },
    typed (some 2) true "IF_"]

theorem plan_accounts_account :
    (∃ p, plan accountSpec accountRun [] ⟨"https://app.test", none, none⟩ = .ok p ∧
      p.needs.envVars.Pairwise (· < ·) ∧ "ACCOUNT" ∈ p.needs.envVars) ∧
    (∀ step ∈ accountSpec.steps,
      recordsOfStep noisyRun step.index = recordsOfStep accountRun step.index) ∧
    plan accountSpec noisyRun [] ⟨"https://app.test", none, none⟩ =
      plan accountSpec accountRun [] ⟨"https://app.test", none, none⟩ ∧
    plan accountSpec clashingRun [] ⟨"https://app.test", none, none⟩ =
      .error [⟨some 1, .navigate, .noUrl⟩, ⟨some 2, .fill, .sharedName "IF" "IF_" "if_"⟩] := by
  have hsame : ∀ step ∈ accountSpec.steps,
      recordsOfStep noisyRun step.index = recordsOfStep accountRun step.index := by
    simp only [accountSpec, List.forall_mem_cons]
    exact ⟨rfl, rfl, by simp⟩
  obtain ⟨-, -, hok, htrace⟩ :=
    plan_accounts accountSpec accountRun [] ⟨"https://app.test", none, none⟩
  obtain ⟨-, herror, -⟩ :=
    plan_accounts accountSpec clashingRun [] ⟨"https://app.test", none, none⟩
  refine ⟨?_, hsame, htrace noisyRun hsame, (herror _).2 ⟨by decide +kernel, by simp⟩⟩
  have hsome : (plan accountSpec accountRun []
      ⟨"https://app.test", none, none⟩).toOption.isSome := by decide +kernel
  obtain ⟨p, hplan⟩ := Option.isSome_iff_exists.1 hsome
  obtain ⟨-, hsorted, hneeds, -⟩ := hok p (toOption_eq_some.1 hplan)
  refine ⟨p, toOption_eq_some.1 hplan, hsorted, (hneeds "ACCOUNT").2 ?_⟩
  refine ⟨_, List.mem_cons_self, .fill "page.locator('#a')" (.binding "ACCOUNT") none, ?_, ?_⟩
  · decide +kernel
  · decide +kernel

end TraceExport.Replay
