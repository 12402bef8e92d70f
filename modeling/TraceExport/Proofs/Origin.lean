import TraceExport.Proofs.Walk

/-!
Where the code of a plan comes from. Each piece of code replays one record of the
trace or is a note for a step without records. A record is replayed once for each
step that has its number, so it is replayed exactly once where the steps of the
specification have different numbers (`plan_replays`). The numbers are taken as
they are written: in a list that repeats a number, each of its steps replays the
same records.
-/

namespace TraceExport.Replay

open Script Spec Trace

/-- Code with the position in the trace of the record that it replays; a note
replays none. -/
structure Placed where
  origin : Option Nat
  code : String

def bodyOf (block : List Placed) : String := "\n".intercalate (block.map Placed.code)

/-- The fragment of a record, if it belongs to the step with this number and leaves
any code. -/
def placed? (ctx : Context) (index : Nat) (x : Record × Nat) : Option Placed :=
  if x.1.isOk && x.1.step == some index then
    ((generate x.1 ctx).toOption.filter (·.code != "")).map fun s => ⟨some x.2, s.code⟩
  else none

/-- The fragments of a step with the records that they come from. -/
def placedOf (records : List Record) (sources : StepSources) (base : Context) (step : Step) :
    List Placed :=
  if recordsOfStep records step.index = [] then
    (fragmentsOf records sources base step).map fun code => ⟨none, code⟩
  else records.zipIdx.filterMap (placed? (base.ofStep sources step) step.index)

variable {records : List Record} {sources : StepSources} {base : Context}

theorem map_code_placedOf (step : Step) :
    (placedOf records sources base step).map Placed.code =
      fragmentsOf records sources base step := by
  unfold placedOf
  split
  · rw [List.map_map]
    exact List.map_id _
  · rename_i hsome
    have hcode : ∀ x : Record × Nat,
        (placed? (base.ofStep sources step) step.index x).map Placed.code =
          if x.1.isOk && x.1.step == some step.index then
            ((generate x.1 (base.ofStep sources step)).toOption.map Statement.code).filter (· != "")
          else none := by
      intro x
      unfold placed?
      split
      · cases (generate x.1 (base.ofStep sources step)).toOption with
        | none => rfl
        | some s => by_cases hs : s.code = "" <;> simp [hs, Option.filter]
      · rfl
    rw [fragmentsOf, if_neg hsome, recordsOfStep, List.filterMap_filter, List.filter_filterMap,
      List.map_filterMap]
    simp only [hcode]
    -- The positions do not matter for the code.
    conv_rhs => rw [← List.zipIdx_map_fst 0 records, List.filterMap_map]
    refine List.filterMap_congr fun x _ => ?_
    simp only [Function.comp_apply]
    split <;> rfl

theorem origin_of_placed? {ctx : Context} {index : Nat} {x : Record × Nat} {y : Placed}
    (h : placed? ctx index x = some y) : x.1.isOk ∧ x.1.step = some index ∧
      ∃ s, generate x.1 ctx = .ok s ∧ s.code ≠ "" ∧ y = ⟨some x.2, s.code⟩ := by
  unfold placed? at h
  split at h
  · rename_i hkept
    obtain ⟨hok, hstep⟩ : x.1.isOk ∧ x.1.step = some index := by simpa using hkept
    obtain ⟨s, hfilter, rfl⟩ := Option.map_eq_some_iff.1 h
    obtain ⟨hs, hcode⟩ := Option.filter_eq_some_iff.1 hfilter
    exact ⟨hok, hstep, s, toOption_eq_some.1 hs, by simpa using hcode, rfl⟩
  · simp at h

theorem nodup_origin_placed? (ctx : Context) (index : Nat) (records : List Record) :
    ((records.zipIdx.filterMap (placed? ctx index)).map Placed.origin).Nodup := by
  rw [List.Nodup, List.pairwise_map, List.pairwise_filterMap]
  have hpositions : (records.zipIdx.map Prod.snd).Nodup := by
    rw [List.zipIdx_map_snd]
    exact List.nodup_range'
  have hpositions := List.pairwise_map.1 hpositions
  refine hpositions.imp fun hne y hy y' hy' heq => hne ?_
  obtain ⟨-, -, s, -, -, rfl⟩ := origin_of_placed? hy
  obtain ⟨-, -, s', -, -, rfl⟩ := origin_of_placed? hy'
  simpa using heq

/-- A record with code is replayed once in each step with its number, and in no
other step. -/
theorem count_origin_placedOf {i n : Nat} {r : Record} {s : Statement}
    (hr : records[i]? = some r) (hok : r.isOk) (hstep : r.step = some n)
    (hs : generate r { base with source := sources.get? n } = .ok s) (hcode : s.code ≠ "")
    (step : Step) :
    ((placedOf records sources base step).map Placed.origin).count (some i) =
      if step.index = n then 1 else 0 := by
  have hat : (r, i) ∈ records.zipIdx := List.mem_zipIdx_iff_getElem?.2 hr
  unfold placedOf
  split
  · rename_i hnone
    have hne : step.index ≠ n := by
      rintro rfl
      have hmem : r ∈ recordsOfStep records step.index :=
        List.mem_filter.2 ⟨List.mem_of_getElem? hr, by simp [hok, hstep]⟩
      simp [hnone] at hmem
    rw [if_neg hne, List.count_eq_zero]
    simp
  · rw [(nodup_origin_placed? _ _ records).count]
    congr 1
    rw [eq_iff_iff]
    constructor
    · intro hmem
      obtain ⟨y, hy, horigin⟩ := List.mem_map.1 hmem
      obtain ⟨x, hx, hplaced⟩ := List.mem_filterMap.1 hy
      obtain ⟨-, hindex, t, -, -, rfl⟩ := origin_of_placed? hplaced
      obtain rfl : x.2 = i := by simpa using horigin
      have hrecord : records[x.2]? = some x.1 := List.mem_zipIdx_iff_getElem?.1 hx
      obtain rfl : r = x.1 := Option.some.inj (hr.symm.trans hrecord)
      exact Option.some.inj (hindex.symm.trans hstep)
    · rintro rfl
      have hgen : generate r (base.ofStep sources step) = .ok s := hs
      refine List.mem_map.2 ⟨⟨some i, s.code⟩, List.mem_filterMap.2 ⟨(r, i), hat, ?_⟩, rfl⟩
      simp [placed?, hok, hstep, toOption_eq_some.2 hgen, hcode, Option.filter]

/-! ### The code of the plan -/

/-- What becomes of a fragment when names are made distinct: it stays where it is,
and only names in it change. -/
def Placed.BecomesOf (x y : Placed) : Prop :=
  y.origin = x.origin ∧ ∃ r : Registry, y.code = (distinguish x.code r).1

/-- Some fragments with other codes. -/
def recoded (xs : List Placed) (codes : List String) : List Placed :=
  List.zipWith (fun x code => ⟨x.origin, code⟩) xs codes

theorem map_code_recoded {xs : List Placed} {codes : List String}
    (h : codes.length = xs.length) : (recoded xs codes).map Placed.code = codes := by
  induction xs generalizing codes with
  | nil => simp [recoded, List.length_eq_zero_iff.1 h]
  | cons x xs ih =>
      obtain ⟨code, codes, rfl⟩ := List.exists_cons_of_length_eq_add_one h
      have hrest := @ih codes (by simpa using h)
      simpa [recoded] using hrest

theorem forall₂_distinguishAll (xs : List Placed) (r : Registry) :
    List.Forall₂ Placed.BecomesOf xs
      (recoded xs (distinguishAll r (xs.map Placed.code)).1) := by
  induction xs generalizing r with
  | nil => exact .nil
  | cons x xs ih => exact .cons ⟨rfl, r, rfl⟩ (ih _)

theorem blocks_eq_placed (steps : List Step) (reg : Registry) : ∃ placed : List (List Placed),
    (blocks reg (steps.map fun step => Draft.ofStep records (base.ofStep sources step) step)).map
        Block.body = placed.map bodyOf ∧
      List.Forall₂ Placed.BecomesOf (steps.flatMap (placedOf records sources base))
        placed.flatten := by
  induction steps generalizing reg with
  | nil => exact ⟨[], rfl, .nil⟩
  | cons step steps ih =>
      have hfragments := @fragments_ofStep records sources base step
      rw [← map_code_placedOf] at hfragments
      obtain ⟨placed, hbodies, hcodes⟩ :=
        ih (distinguishAll reg ((placedOf records sources base step).map Placed.code)).2
      rw [List.map_cons, blocks, hfragments, List.flatMap_cons]
      cases hstep : placedOf records sources base step with
      | nil =>
          rw [hstep] at hbodies
          exact ⟨placed, hbodies, hcodes⟩
      | cons x xs =>
          rw [hstep] at hbodies
          refine ⟨recoded (x :: xs) (distinguishAll reg ((x :: xs).map Placed.code)).1 :: placed,
            ?_, ?_⟩
          · have hlength : (distinguishAll reg ((x :: xs).map Placed.code)).1.length =
                (x :: xs).length := by rw [length_distinguishAll, List.length_map]
            have hcode := map_code_recoded hlength
            rw [List.map_cons (f := bodyOf), bodyOf, hcode, ← hbodies]
            rfl
          · exact List.rel_append (forall₂_distinguishAll (x :: xs) reg) hcodes

theorem Placed.map_origin_eq {xs ys : List Placed} (h : List.Forall₂ BecomesOf xs ys) :
    ys.map origin = xs.map origin := by
  induction h with
  | nil => rfl
  | cons hxy _ ih => rw [List.map_cons, List.map_cons, hxy.1, ih]

theorem Placed.exists_becomesOf {xs ys : List Placed} (h : List.Forall₂ BecomesOf xs ys)
    {y : Placed} (hy : y ∈ ys) : ∃ x ∈ xs, x.BecomesOf y := by
  induction h with
  | nil => simp at hy
  | @cons x z xs zs hxz _ ih =>
      rcases List.mem_cons.1 hy with rfl | hy
      · exact ⟨x, List.mem_cons_self, hxz⟩
      · obtain ⟨w, hw, hwy⟩ := ih hy
        exact ⟨w, List.mem_cons_of_mem x hw, hwy⟩

/-- Over all steps, a record with code is replayed as often as its number is given. -/
theorem count_origin_flatMap {i n : Nat} {r : Record} {s : Statement}
    (hr : records[i]? = some r) (hok : r.isOk) (hstep : r.step = some n)
    (hs : generate r { base with source := sources.get? n } = .ok s) (hcode : s.code ≠ "")
    (steps : List Step) :
    ((steps.flatMap (placedOf records sources base)).map Placed.origin).count (some i) =
      (steps.map Step.index).count n := by
  induction steps with
  | nil => rfl
  | cons step steps ih =>
      rw [List.flatMap_cons, List.map_append, List.count_append, ih,
        count_origin_placedOf hr hok hstep hs hcode, List.map_cons, List.count_cons, Nat.add_comm]
      congr 1
      by_cases hindex : step.index = n <;> simp [hindex]

theorem origin_of_mem_placedOf {step : Step} {x : Placed}
    (hx : x ∈ placedOf records sources base step) {i : Nat} (hi : x.origin = some i) :
    ∃ r s, records[i]? = some r ∧ r.isOk ∧ r.step = some step.index ∧
      generate r (base.ofStep sources step) = .ok s ∧ x.code = s.code := by
  unfold placedOf at hx
  split at hx
  · obtain ⟨code, -, rfl⟩ := List.mem_map.1 hx
    simp at hi
  · obtain ⟨y, hy, hplaced⟩ := List.mem_filterMap.1 hx
    obtain ⟨hok, hstep, s, hs, -, rfl⟩ := origin_of_placed? hplaced
    obtain rfl : y.2 = i := by simpa using hi
    exact ⟨y.1, s, List.mem_zipIdx_iff_getElem?.1 hy, hok, hstep, hs, rfl⟩

theorem note_of_mem_placedOf {step : Step} {x : Placed}
    (hx : x ∈ placedOf records sources base step) (hnone : x.origin = none) :
    recordsOfStep records step.index = [] ∧ [x.code] = fragmentsOf records sources base step := by
  unfold placedOf at hx
  split at hx
  · rename_i hrecords
    refine ⟨hrecords, ?_⟩
    rw [fragmentsOf, if_pos hrecords] at hx ⊢
    obtain rfl := List.mem_singleton.1 hx
    rfl
  · obtain ⟨y, -, hplaced⟩ := List.mem_filterMap.1 hx
    obtain ⟨-, -, s, -, -, rfl⟩ := origin_of_placed? hplaced
    simp at hnone

/-- The code of a plan replays records, each by its own fragment, but for the notes of
steps without records. Each record with code is replayed once for each item of the
step list that has its number. -/
theorem plan_replays (raw : String) (records : List Record) (sources : StepSources)
    (base : Context) (p : Plan) (h : plan (ofMarkdown raw) records sources base = .ok p) :
    ∃ placed : List (List Placed),
      p.blocks.map Block.body = placed.map bodyOf ∧
      (∀ x ∈ placed.flatten, ∀ i, x.origin = some i → ∃ r n s reg, records[i]? = some r ∧
        r.isOk ∧ r.step = some n ∧
        generate r { base with source := sources.get? n } = .ok s ∧
        x.code = (distinguish s.code reg).1) ∧
      (∀ x ∈ placed.flatten, x.origin = none → ∃ step ∈ (ofMarkdown raw).steps, ∃ note reg,
        recordsOfStep records step.index = [] ∧ [note] = fragmentsOf records sources base step ∧
        x.code = (distinguish note reg).1) ∧
      ∀ i r n s, records[i]? = some r → r.isOk → r.step = some n →
        generate r { base with source := sources.get? n } = .ok s → s.code ≠ "" →
        (placed.flatten.map Placed.origin).count (some i) =
          ((stepItems raw).map Prod.fst).count n := by
  obtain ⟨-, rfl⟩ := plan_eq_ok.1 h
  obtain ⟨placed, hbodies, hcodes⟩ := @blocks_eq_placed records sources base (ofMarkdown raw).steps
    (seed (drafts (ofMarkdown raw) records sources base))
  refine ⟨placed, ?_, fun x hx i hi => ?_, fun x hx hnone => ?_,
    fun i r n s hr hok hstep hs hcode => ?_⟩
  · rw [← hbodies, plannedSteps, ← blocks_eq_writtenSteps]
    rfl
  · obtain ⟨y, hy, horigin, reg, hcode⟩ := Placed.exists_becomesOf hcodes hx
    obtain ⟨step, -, hy⟩ := List.mem_flatMap.1 hy
    obtain ⟨r, s, hr, hok, hstep, hs, hfragment⟩ :=
      origin_of_mem_placedOf hy (horigin.symm.trans hi)
    exact ⟨r, step.index, s, reg, hr, hok, hstep, hs, by rw [hcode, hfragment]⟩
  · obtain ⟨y, hy, horigin, reg, hcode⟩ := Placed.exists_becomesOf hcodes hx
    obtain ⟨step, hstep, hy⟩ := List.mem_flatMap.1 hy
    obtain ⟨hrecords, hnote⟩ := note_of_mem_placedOf hy (horigin.symm.trans hnone)
    exact ⟨step, hstep, y.code, reg, hrecords, hnote, hcode⟩
  · have hnumbers : (ofMarkdown raw).steps.map Step.index = (stepItems raw).map Prod.fst := by
      rw [ofMarkdown, List.map_map]
      rfl
    rw [Placed.map_origin_eq hcodes, count_origin_flatMap hr hok hstep hs hcode, hnumbers]

theorem plan_replays_account :
    ∃ p, plan (ofMarkdown "## Steps\n1. Fill in the account\n2. Verify the account") accountRun []
        ⟨"https://app.test", none, none⟩ = .ok p ∧
      ∃ placed : List (List Placed), p.blocks.map Block.body = placed.map bodyOf ∧
        (placed.flatten.map Placed.origin).count (some 0) = 1 ∧
          (placed.flatten.map Placed.origin).count (some 1) = 1 := by
  have hsome : (plan (ofMarkdown "## Steps\n1. Fill in the account\n2. Verify the account")
      accountRun [] ⟨"https://app.test", none, none⟩).toOption.isSome := by decide +kernel
  obtain ⟨p, hplan⟩ := Option.isSome_iff_exists.1 hsome
  obtain ⟨placed, hbodies, -, -, hcount⟩ := plan_replays _ _ _ _ p (toOption_eq_some.1 hplan)
  refine ⟨p, toOption_eq_some.1 hplan, placed, hbodies, ?_, ?_⟩
  · rw [hcount 0 _ 1 (.fill "page.locator('#a')" (.binding "ACCOUNT") none) rfl rfl rfl
      (by decide +kernel) (by decide +kernel)]
    decide +kernel
  · rw [hcount 1 _ 2 (.expectNthText "account" (.literal "Account") 0) rfl rfl rfl
      (by decide +kernel) (by decide +kernel)]
    decide +kernel

/-- A click, recorded for the step that opens a menu. -/
def menuClick : Record where
  runId := "run-1"
  specPath := "specs/a.md"
  step := some 1
  tool := .click
  input := ToolInput.empty
  outcome := ⟨true, none, none⟩
  element := some ⟨default, [], some ⟨"css", "#menu", "page.locator('#menu')", ⟨true, none, none⟩⟩⟩
  pageUrl := none
  timestamp := 0

/-- In a list that is numbered `1.` throughout, one click is replayed by each
step. -/
theorem plan_repeatedNumber :
    ∃ s, generate menuClick ⟨"https://app.test", none, none⟩ = .ok s ∧ s.code ≠ "" ∧
      menuClick.isOk ∧ menuClick.step = some 1 ∧
        plan (ofMarkdown "## Steps\n1. Open the menu\n1. Close the menu") [menuClick] []
            ⟨"https://app.test", none, none⟩ =
          .ok ⟨[⟨1, "Open the menu", s.code⟩, ⟨1, "Close the menu", s.code⟩], Needs.none⟩ :=
  ⟨.click "page.locator('#menu')", by decide +kernel, by decide +kernel, rfl, rfl,
    by decide +kernel⟩

end TraceExport.Replay
