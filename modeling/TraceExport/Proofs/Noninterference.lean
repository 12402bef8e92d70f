import TraceExport.Export.Basic
import TraceExport.Proofs.StepSources
import Mathlib.Data.List.Forall2

/-!
Values of variables do not reach the file of a test. The statement compares two
compilations whose inputs agree on everything except what the values of
variables may have gone into: the texts of steps with variables, and those
entries of recorded inputs that are read off the source of the step instead.

`Secret` says which entries these are. It looks at the source alone, but for one
case: a recorded text is kept when it is the text that the source names, so it
has to differ from that text in both runs.
-/

namespace TraceExport.Replay

open Script Spec Trace

/-! ### What the source of a step settles -/

/-- Whether a step navigates, in so many words, to a target with a variable. -/
def navigatesToVariable (source : StepSource) : Bool :=
  match navigationTarget? source.text.toList with
  | some target => !(Placeholder.vars (String.ofList target)).isEmpty
  | none => false

/-- Whether a step mentions something with a variable that is certain to be an
address. -/
def mentionsAddress (source : StepSource) : Bool :=
  match addressToken? source.text.toList with
  | some token => isAddressTemplate token
  | none => false

/-- Whether a step is exactly one variable, and that is no address. -/
def isValueVariable (source : StepSource) : Bool :=
  match Placeholder.sole? source.text.toList with
  | some name => !Placeholder.isAddress (String.ofList name)
  | none => false

/-- Whether the text that a step expects has a variable in it. -/
def expectsVariable (source : StepSource) : Bool :=
  match assertedText? source.text.toList with
  | some value => !(Placeholder.vars (String.ofList value)).isEmpty
  | none => false

/-- Whether a step has a variable that is no address, and the text recorded for
it is not the one that it names. -/
def withholdsText (source : StepSource) (r : Record) : Prop :=
  source.valueVar?.isSome ∧ ∀ text ∈ r.input.expectedText?, ¬ isNamedText source text

/-- The entries of an input that values of variables may have gone into, for two
records of a step with the given source. -/
inductive Secret (source : StepSource) (r r' : Record) (name : String) : Prop
  | address (entry : name = "url") (tool : r.tool = .navigate)
      (hidden : navigatesToVariable source ∨ mentionsAddress source)
  | text (entry : name = "text") (tool : r.tool = .assertText)
      (hidden : isValueVariable source ∨ expectsVariable source ∨
        (withholdsText source r ∧ withholdsText source r'))

/-- Two records that differ at most in what values of variables went into. -/
structure RecordsAgree (sources : StepSources) (r r' : Record) : Prop where
  rest : { r with input := r'.input } = r'
  entries : ∀ name, r.input.get? name = r'.input.get? name ∨
    ∃ step source, r.step = some step ∧ sources.get? step = some source ∧ Secret source r r' name

/-- Two steps that differ at most in their texts, and only if the text has a
source to be read from. -/
structure StepsAgree (sources : StepSources) (s s' : Step) : Prop where
  index : s.index = s'.index
  kind : s.kind = s'.kind
  text : s.text = s'.text ∨ (sources.get? s.index).isSome

/-- Two specifications that differ at most in the texts of steps that have a
source. -/
structure SpecsAgree (sources : StepSources) (spec spec' : Spec) : Prop where
  preconditions : spec.preconditions = spec'.preconditions
  steps : List.Forall₂ (StepsAgree sources) spec.steps spec'.steps

/-! ### One record -/

theorem target?_eq_of_hidden {ctx : Context} {source : StepSource}
    (hsource : ctx.source = some source)
    (h : navigatesToVariable source ∨ mentionsAddress source) (url url' : Option String) :
    target? ctx url = target? ctx url' := by
  unfold target?
  cases hn : namedTarget? ctx with
  | some raw => rfl
  | none =>
      have hnav : navigatesToVariable source = false := by
        cases ht : navigationTarget? source.text.toList with
        | none => simp [navigatesToVariable, ht]
        | some target =>
            simpa [namedTarget?, Context.rawText?, hsource, ht, navigatesToVariable,
              Option.filter] using hn
      have hmention : mentionsAddress source := by simpa [hnav] using h
      cases ha : addressToken? source.text.toList with
      | none => simp [mentionsAddress, ha] at hmention
      | some token =>
          have htoken : isAddressTemplate token := by simpa [mentionsAddress, ha] using hmention
          cases url <;> cases url' <;>
            simp [Context.rawText?, hsource, ha, htoken]

theorem symbolicText?_isSome {source : StepSource}
    (h : isValueVariable source ∨ expectsVariable source) : (symbolicText? source).isSome := by
  unfold symbolicText?
  split
  · rfl
  · rename_i hsole
    have hvalue : isValueVariable source = false := by
      cases hs : Placeholder.sole? source.text.toList with
      | none => simp [isValueVariable, hs]
      | some name => simpa [isValueVariable, hs, Option.filter] using hsole
    have hexpects : expectsVariable source := by simpa [hvalue] using h
    cases ha : assertedText? source.text.toList with
    | none => simp [expectsVariable, ha] at hexpects
    | some raw =>
        have hvars : Placeholder.vars (String.ofList raw) ≠ [] := by
          simpa [expectsVariable, ha] using hexpects
        simpa using Expr.ofTemplate?_isSome hvars

theorem assertedFrom?_of_withheld {source : StepSource} {r : Record}
    (hsym : symbolicText? source = none) (h : withholdsText source r) :
    assertedFrom? source r.input.expectedText? =
      some (.withheld (source.vars.filter (!Placeholder.isAddress ·))) := by
  have hfilter : r.input.expectedText?.filter (isNamedText source) = none := by
    rw [Option.filter_eq_none_iff]
    exact h.2
  simp [assertedFrom?, hsym, h.1, hfilter]

theorem assertedFrom?_eq_of_hidden {source : StepSource} {r r' : Record}
    (h : isValueVariable source ∨ expectsVariable source ∨
      (withholdsText source r ∧ withholdsText source r')) :
    assertedFrom? source r.input.expectedText? = assertedFrom? source r'.input.expectedText? := by
  cases hsym : symbolicText? source with
  | some text => simp [assertedFrom?, hsym]
  | none =>
      have hnone : ¬ (isValueVariable source ∨ expectsVariable source) := by
        intro hv
        simpa [hsym] using symbolicText?_isSome hv
      rw [← or_assoc] at h
      obtain ⟨hr, hr'⟩ := h.resolve_left hnone
      rw [assertedFrom?_of_withheld hsym hr, assertedFrom?_of_withheld hsym hr']

/-- The entries of an input are either equal or settled by the source of the step. -/
def EntriesAgree (ctx : Context) (r r' : Record) : Prop :=
  ∀ name, r.input.get? name = r'.input.get? name ∨
    ∃ source, ctx.source = some source ∧ Secret source r r' name

namespace EntriesAgree

variable {ctx : Context} {r r' : Record}

/-- Only an address or a text that is expected can differ. -/
theorem get?_eq (h : EntriesAgree ctx r r') (name : String) (hurl : name ≠ "url")
    (htext : name ≠ "text") : r.input.get? name = r'.input.get? name := by
  refine (h name).resolve_right ?_
  rintro ⟨source, -, address | text⟩ <;> contradiction

theorem target?_eq (h : EntriesAgree ctx r r') :
    target? ctx r.input.url? = target? ctx r'.input.url? := by
  rcases h "url" with heq | ⟨source, hsource, hsecret⟩
  · simp only [ToolInput.url?, ToolInput.text?, heq]
  · cases hsecret with
    | address _ _ hidden => exact target?_eq_of_hidden hsource hidden _ _
    | text entry => simp at entry

theorem asserted?_eq (h : EntriesAgree ctx r r') :
    asserted? ctx r.input.expectedText? = asserted? ctx r'.input.expectedText? := by
  rcases h "text" with heq | ⟨source, hsource, hsecret⟩
  · simp only [ToolInput.expectedText?, ToolInput.text?, heq]
  · cases hsecret with
    | address entry => simp at entry
    | text _ _ hidden =>
        simp only [asserted?, hsource]
        exact assertedFrom?_eq_of_hidden hidden

end EntriesAgree

/-- A tool is replayed alike in two records whenever the entries that it reads agree. -/
theorem statement_eq {r r' : Record} {ctx : Context} (hrest : { r with input := r'.input } = r')
    (hentries : EntriesAgree ctx r r') : statement r ctx = statement r' ctx := by
  have htool : r'.tool = r.tool := by rw [← hrest]
  have hlocator : r'.locatorCode? = r.locatorCode? := by rw [← hrest]; rfl
  have hfingerprint : r'.fingerprint = r.fingerprint := by rw [← hrest]; rfl
  have hstep : r'.step = r.step := by rw [← hrest]
  unfold statement
  rw [htool, hlocator, hfingerprint, hstep]
  cases r.tool with
  | navigate => simp only [hentries.target?_eq]
  | assertText =>
      have hnth := hentries.get?_eq "visibleNth" (by decide) (by decide)
      simp only [hentries.asserted?_eq, ToolInput.visibleNth?, hnth]
  | fill =>
      have hvalue := hentries.get?_eq "fillValue" (by decide) (by decide)
      simp only [ToolInput.fillValue?, hvalue]
  | selectOption =>
      have hlabel := hentries.get?_eq "label" (by decide) (by decide)
      simp only [ToolInput.label?, ToolInput.text?, hlabel]
  | wait =>
      have hseconds := hentries.get?_eq "seconds" (by decide) (by decide)
      simp only [ToolInput.seconds?, hseconds]
  | click => rfl
  | assertElement => rfl
  | scroll => rfl
  | other name => rfl

theorem generate_eq {r r' : Record} {ctx : Context} (hrest : { r with input := r'.input } = r')
    (hentries : EntriesAgree ctx r r') : generate r ctx = generate r' ctx := by
  have herror : Error.of r = Error.of r' := by rw [← hrest]; rfl
  rw [generate, generate, statement_eq hrest hentries, herror]

theorem RecordsAgree.entriesAgree {sources : StepSources} {r r' : Record}
    (h : RecordsAgree sources r r') {index : Nat} (hindex : r.step = some index) {ctx : Context}
    (hctx : ctx.source = sources.get? index) : EntriesAgree ctx r r' := by
  refine fun name => (h.entries name).imp_right ?_
  rintro ⟨step, source, hstep, hsource, hsecret⟩
  obtain rfl : index = step := Option.some.inj (hindex.symm.trans hstep)
  exact ⟨source, hctx.trans hsource, hsecret⟩

/-! ### All records -/

/-- Results that are counted and reported alike. -/
structure ResultsAgree (p p' : Record × Except Error Statement) : Prop where
  step : p.1.step = p'.1.step
  tool : p.1.tool = p'.1.tool
  result : p.2 = p'.2

structure DraftsAgree (d d' : Draft) : Prop where
  index : d.index = d'.index
  comment : d.comment = d'.comment
  results : List.Forall₂ ResultsAgree d.results d'.results

theorem results_agree {sources : StepSources} {records records' : List Record}
    (h : List.Forall₂ (RecordsAgree sources) records records') (index : Nat) {ctx : Context}
    (hctx : ctx.source = sources.get? index) :
    List.Forall₂ ResultsAgree
      ((recordsOfStep records index).map fun r => (r, generate r ctx))
      ((recordsOfStep records' index).map fun r => (r, generate r ctx)) := by
  induction h with
  | nil => exact .nil
  | @cons r r' records records' hr _ ih =>
      have hok : r'.isOk = r.isOk := by rw [← hr.rest]; rfl
      have hstep : r'.step = r.step := by rw [← hr.rest]
      have htool : r'.tool = r.tool := by rw [← hr.rest]
      -- Which records belong to the step does not depend on their inputs.
      by_cases hkept : r.isOk ∧ r.step = some index
      · have hgen := generate_eq hr.rest (hr.entriesAgree hkept.2 hctx)
        simpa [recordsOfStep, hok, hstep, hkept] using
          List.Forall₂.cons ⟨hstep.symm, htool.symm, hgen⟩ ih
      · have hdrop : ¬ (r'.isOk ∧ r'.step = some index) := by simpa [hok, hstep] using hkept
        simpa [recordsOfStep, hkept, hdrop] using ih

/-- The text of a step with variables is not looked at for its comment. -/
theorem comment_eq {sources : StepSources} (hvars : ∀ i source, sources.get? i = some source →
    source.vars ≠ []) {s s' : Step} (h : StepsAgree sources s s') {ctx : Context}
    (hctx : ctx.source = sources.get? s.index) : comment s.text ctx = comment s'.text ctx := by
  rcases h.text with htext | hsome
  · rw [htext]
  · obtain ⟨source, hsource⟩ := Option.isSome_iff_exists.1 hsome
    have := hvars _ _ hsource
    simp [comment, hctx, hsource, this]

theorem drafts_agree {sources : StepSources} (hvars : ∀ i source, sources.get? i = some source →
    source.vars ≠ []) {spec spec' : Spec} (hspec : SpecsAgree sources spec spec')
    {records records' : List Record}
    (hrecords : List.Forall₂ (RecordsAgree sources) records records')
    (base : Context) :
    List.Forall₂ DraftsAgree (drafts spec records sources base)
      (drafts spec' records' sources base) := by
  rw [drafts, drafts, List.forall₂_map_left_iff, List.forall₂_map_right_iff]
  refine hspec.steps.imp fun s s' hs => ?_
  rw [← hs.index]
  exact ⟨hs.index, comment_eq hvars hs rfl, by
    simpa [Draft.ofStep, ← hs.index] using results_agree hrecords s.index rfl⟩

theorem Tally.bind_eq {r r' : Record} (hstep : r.step = r'.step) (htool : r.tool = r'.tool)
    (t : Tally) (var : String) : t.bind r var = t.bind r' var := by
  simp only [Tally.bind, Error.of, hstep, htool]

theorem Tally.add_eq {p p' : Record × Except Error Statement} (h : ResultsAgree p p')
    (t : Tally) : t.add p = t.add p' := by
  have hbind : (fun (t : Tally) var => t.bind p.1 var) = fun t var => t.bind p'.1 var := by
    funext t var
    exact Tally.bind_eq h.step h.tool t var
  simp only [Tally.add, h.result, hbind]

theorem foldl_add_eq {ps ps' : List (Record × Except Error Statement)}
    (h : List.Forall₂ ResultsAgree ps ps') (t : Tally) :
    ps.foldl Tally.add t = ps'.foldl Tally.add t := by
  induction h generalizing t with
  | nil => rfl
  | cons hp _ ih => simp only [List.foldl_cons, Tally.add_eq hp, ih]

theorem tally_eq {ds ds' : List Draft} (h : List.Forall₂ DraftsAgree ds ds') :
    tally ds = tally ds' := by
  refine foldl_add_eq ?_ Tally.empty
  induction h with
  | nil => exact .nil
  | cons hd _ ih => simpa using List.rel_append hd.results ih

theorem map_result_eq {ps ps' : List (Record × Except Error Statement)}
    (h : List.Forall₂ ResultsAgree ps ps') : ps.map (·.2) = ps'.map (·.2) := by
  induction h with
  | nil => rfl
  | cons hp _ ih => simp [hp.result, ih]

theorem fragments_eq {d d' : Draft} (h : DraftsAgree d d') : d.fragments = d'.fragments := by
  have hmap := map_result_eq h.results
  have hempty : d.results.isEmpty = d'.results.isEmpty := by
    rw [← List.isEmpty_map (f := Prod.snd), hmap, List.isEmpty_map]
  have hkept : (d.results.filterMap fun r => r.2.toOption) =
      d'.results.filterMap fun r => r.2.toOption := by
    simpa [List.filterMap_map] using congrArg (List.filterMap Except.toOption) hmap
  simp only [Draft.fragments, hempty, hkept, h.index, h.comment]

theorem blocks_eq {ds ds' : List Draft} (h : List.Forall₂ DraftsAgree ds ds')
    (reg : Registry) : blocks reg ds = blocks reg ds' := by
  induction h generalizing reg with
  | nil => rfl
  | cons hd _ ih => simp only [blocks, fragments_eq hd, hd.index, hd.comment, ih]

theorem plan_eq {sources : StepSources} (hvars : ∀ i source, sources.get? i = some source →
    source.vars ≠ []) {spec spec' : Spec} (hspec : SpecsAgree sources spec spec')
    {records records' : List Record}
    (hrecords : List.Forall₂ (RecordsAgree sources) records records')
    (base : Context) : plan spec records sources base = plan spec' records' sources base := by
  have h := drafts_agree hvars hspec hrecords base
  simp only [plan, tally_eq h, blocks_eq h]

end TraceExport.Replay

namespace TraceExport.Export

open Spec Trace Replay

theorem missingLocators_eq {sources : StepSources} {records records' : List Record}
    (h : List.Forall₂ (RecordsAgree sources) records records') :
    missingLocators records = missingLocators records' := by
  induction h with
  | nil => rfl
  | @cons r r' records records' hr _ ih =>
      have hlacks : (r'.isOk && r'.tool.needsLocator && !r'.hasLocator) =
          (r.isOk && r.tool.needsLocator && !r.hasLocator) := by rw [← hr.rest]; rfl
      have hshown : MissingLocator.ofRecord r' = MissingLocator.ofRecord r := by
        rw [← hr.rest]; rfl
      simp only [missingLocators] at ih
      simp only [missingLocators, List.filter_cons, hlacks]
      split
      · simp only [List.map_cons, hshown, ih]
      · exact ih

theorem validate_eq {sources : StepSources} {records records' : List Record}
    (h : List.Forall₂ (RecordsAgree sources) records records') :
    validate records = validate records' := by
  have hempty : records.isEmpty = records'.isEmpty := by cases h <;> rfl
  simp only [validate, hempty, missingLocators_eq h]

/-- Two runs whose inputs differ at most in what values of variables went into
give the same file, or the same error. -/
theorem compile_noninterference (o : Options) (raw : String) {spec spec' : Spec}
    {records records' : List Record} (hspec : SpecsAgree (stepSources raw) spec spec')
    (hrecords : List.Forall₂ (RecordsAgree (stepSources raw)) records records') :
    compile { o with rawSpec := some raw, spec := spec } records =
      compile { o with rawSpec := some raw, spec := spec' } records' := by
  have hvars : ∀ i source, (stepSources raw).get? i = some source → source.vars ≠ [] := by
    intro i source h
    obtain ⟨item, -, hne⟩ := StepSources.get?_stepSources h
    exact hne
  simp only [compile, Option.map_some, Option.getD_some, validate_eq hrecords,
    plan_eq hvars hspec hrecords]

/-- A specification whose two steps have a variable each. -/
def sampleText : String := "## Steps\n1. Go to {{A}}\n2. Verify \"Hi\" for {{B}}"

/-- The specification after its variables got values. -/
def sampleSpec (site user : String) : Spec where
  preconditions := []
  steps := [⟨1, "Go to " ++ site, .action⟩, ⟨2, "Verify \"Hi\" for " ++ user, .assertion⟩]

/-- A run of it; an address that is empty is not recorded. -/
def sampleRun (site text : String) : List Record :=
  [⟨"run-1", "specs/a.md", some 1, .navigate, ⟨[("url", .string site)]⟩, ⟨true, none, none⟩,
      none, none, 0⟩,
    ⟨"run-1", "specs/a.md", some 2, .assertText, ⟨[("text", .string text)]⟩,
      ⟨true, none, none⟩, none, none, 1⟩]

theorem stepSources_sampleText : stepSources sampleText =
    [(1, ⟨["A"], "Go to {{A}}"⟩), (2, ⟨["B"], "Verify \"Hi\" for {{B}}"⟩)] := by
  decide +kernel

theorem compile_noninterference_sample :
    SpecsAgree (stepSources sampleText) (sampleSpec "https://a.test" "Ann") (sampleSpec "" "Bo") ∧
      List.Forall₂ (RecordsAgree (stepSources sampleText)) (sampleRun "https://a.test" "Hi Ann")
        (sampleRun "" "Hi Bo") ∧
      compile ⟨⟨"/project"⟩, "run-1", ⟨"specs/a.md"⟩, sampleSpec "https://a.test" "Ann",
          "https://b.test", none, some sampleText, none⟩ (sampleRun "https://a.test" "Hi Ann") =
        compile ⟨⟨"/project"⟩, "run-1", ⟨"specs/a.md"⟩, sampleSpec "" "Bo",
          "https://b.test", none, some sampleText, none⟩ (sampleRun "" "Hi Bo") := by
  have hspec : SpecsAgree (stepSources sampleText) (sampleSpec "https://a.test" "Ann")
      (sampleSpec "" "Bo") := by
    rw [stepSources_sampleText]
    refine ⟨rfl, .cons ⟨rfl, rfl, .inr ?_⟩ (.cons ⟨rfl, rfl, .inr ?_⟩ .nil)⟩ <;> decide +kernel
  have hrecords : List.Forall₂ (RecordsAgree (stepSources sampleText))
      (sampleRun "https://a.test" "Hi Ann") (sampleRun "" "Hi Bo") := by
    rw [stepSources_sampleText]
    refine .cons ⟨rfl, fun name => ?_⟩ (.cons ⟨rfl, fun name => ?_⟩ .nil)
    · by_cases hname : name = "url"
      · refine .inr ⟨1, _, rfl, rfl, .address hname rfl (.inl ?_)⟩
        decide +kernel
      · simp [ToolInput.get?, Json.member?, Ne.symm hname]
    · by_cases hname : name = "text"
      · refine .inr ⟨2, _, rfl, rfl, .text hname rfl (.inr (.inr ⟨⟨rfl, ?_⟩, ⟨rfl, ?_⟩⟩))⟩ <;>
          decide +kernel
      · simp [ToolInput.get?, Json.member?, Ne.symm hname]
  exact ⟨hspec, hrecords, compile_noninterference
    ⟨⟨"/project"⟩, "run-1", ⟨"specs/a.md"⟩, sampleSpec "" "", "https://b.test", none, none, none⟩
    sampleText hspec hrecords⟩

end TraceExport.Export
