import TraceExport.Proofs.Printable
import TraceExport.Proofs.Reference
import TraceExport.Proofs.SingleLine
import TraceExport.Proofs.Validation

/-!
The comments of a test. Each stands on a line of its own and is made of words of the
exporter and a text from outside, put on one line: the text of a step or the name of a
tool. Line feeds and carriage returns never get through; the other two characters that
end a line of a script do, wherever the text has them (`comments_keep_to_line`).
-/

namespace TraceExport.Spec.Placeholder

theorem suffix_of_read? {s name rest : List Char} (h : read? s = some (name, rest)) :
    rest <:+ s := by
  obtain ⟨braced, -, rfl⟩ := of_read? h
  exact List.suffix_append braced rest

theorem mem_consPlain_of_mem {name : List Char} {ps : List Piece}
    (h : Piece.placeholder name ∈ ps) (c : Char) : Piece.placeholder name ∈ consPlain c ps := by
  unfold consPlain
  split <;> simp_all

/-- Replacing placeholders adds nothing but what is shown in their places. -/
theorem mem_replace {shown : List Char → List Char} {s : List Char} {c : Char}
    (h : c ∈ replace shown s) :
    c ∈ s ∨ ∃ name, Piece.placeholder name ∈ pieces s ∧ c ∈ shown name := by
  unfold replace at h
  fun_induction pieces s with
  | case1 => simp at h
  | case2 d rest name after hread _ ih =>
      rw [List.flatMap_cons, List.mem_append] at h
      rcases h with h | h
      · exact .inr ⟨name, List.mem_cons_self, h⟩
      · refine (ih h).imp (fun h => (suffix_of_read? hread).subset h) ?_
        rintro ⟨other, hother, hmem⟩
        exact ⟨other, List.mem_cons_of_mem _ hother, hmem⟩
  | case3 d rest _ ih =>
      rw [flatMap_consPlain (fun _ => rfl), List.mem_cons] at h
      rcases h with rfl | h
      · exact .inl List.mem_cons_self
      · refine (ih h).imp (List.mem_cons_of_mem d) ?_
        rintro ⟨other, hother, hmem⟩
        exact ⟨other, mem_consPlain_of_mem hother d, hmem⟩

end TraceExport.Spec.Placeholder

namespace TraceExport.Script

open Text Lexeme

/-! ### Comments keep their words -/

theorem isWord_of_declarationAt? {s name : List Char} (h : declarationAt? s = some name) :
    IsWord name := by
  unfold declarationAt? at h
  split at h
  · simp at h
  · rename_i rest hrest
    simp only at h
    split at h
    · simp at h
    · split at h
      · rename_i c hhead _
        split at h
        · rename_i hstart
          cases h
          refine ⟨?_, fun d hd => ?_⟩
          · cases hs : trimStart rest with
            | nil => simp [hs] at hhead
            | cons d s =>
                obtain rfl : d = c := by simpa [hs] using hhead
                simp [isIdentChar_of_isIdentStart hstart]
          · exact List.all_eq_true.1 List.all_takeWhile d hd
        · simp at h
      · simp at h

theorem isWord_of_declaredName? {code name : String} (h : declaredName? code = some name) :
    IsWord name.toList := by
  obtain ⟨w, hw, rfl⟩ := Option.map_eq_some_iff.1 h
  rw [String.toList_ofList]
  generalize code.toList = s at hw
  induction s with
  | nil => simp [firstDeclaration?] at hw
  | cons c s ih =>
      unfold firstDeclaration? at hw
      split at hw
      · rename_i found hfound
        cases hw
        exact isWord_of_declarationAt? hfound
      · exact ih hw

theorem lexemes_indentedComment {text : List Char} (h : '\n' ∉ text) :
    lexemes none none (' ' :: ' ' :: '/' :: '/' :: text) =
      [copied [' '], copied [' '], copied ('/' :: '/' :: text)] := by
  have hsplit : splitComment ('/' :: text) = ('/' :: text, []) := by
    have hall : ∀ c ∈ '/' :: text, (c != '\n') = true := by
      intro c hc
      rcases List.mem_cons.1 hc with rfl | hc
      · decide
      · simpa using ne_of_mem_of_not_mem hc h
    simp only [splitComment, List.takeWhile_eq_self_iff.2 hall,
      List.dropWhile_eq_nil_iff.2 hall]
  rw [lexemes_char rfl (by decide) rfl, lexemes_char rfl (by decide) rfl, lexemes]
  simp only [hsplit]
  simp [isQuote, lexemes]

/-- A comment is written as it is, even if it reads like a declaration. -/
theorem distinguish_comment {text : String} (h : '\n' ∉ text.toList) (r : Registry) :
    (distinguish ("  // " ++ text) r).1 = "  // " ++ text := by
  unfold distinguish
  split
  · rfl
  · rename_i name hname
    simp only
    split
    · rfl
    · have htext : ("  // " ++ text).toList = ' ' :: ' ' :: '/' :: '/' :: ' ' :: text.toList := by
        rw [String.toList_append]
        rfl
      rw [rename, renameFrom_eq_flatMap (isWord_of_declaredName? hname), htext,
        lexemes_indentedComment (by simpa using h), ← String.toList_inj, htext]
      simp [renamed]

end TraceExport.Script

namespace TraceExport.Replay

open Script Spec Trace Text

/-! ### What comments show -/

/-- The text of a step that its comment shows, before it is put on one line. -/
def shownText (text : String) (ctx : Context) : String :=
  match ctx.source with
  | some source => if source.vars.isEmpty then plainComment text ctx else keyedText source
  | none => plainComment text ctx

theorem comment_eq_flattenLine (text : String) (ctx : Context) :
    comment text ctx = flattenLine (shownText text ctx) := rfl

/-- A comment: words of the exporter, and a text from outside. -/
structure Note where
  lead : String
  shown : String
deriving DecidableEq, Repr

namespace Note

def text (n : Note) : String := n.lead ++ flattenLine n.shown

def line (n : Note) : String := "  // " ++ n.text

/-- Something that is left to do. -/
def todo (what shown : String) : Note := ⟨"TODO: " ++ what, shown⟩

/-- The comment above the statements of a step. -/
def ofStep (step : Step) (ctx : Context) : Note :=
  ⟨"Step " ++ toString step.index ++ ": ", shownText step.text ctx⟩

/-- The comment in place of the statements of a step without records. -/
def ofMissing (step : Step) (ctx : Context) : Note :=
  todo ("Step " ++ toString step.index ++ " - No IR record found for: ")
    (shownText step.text ctx)

/-- The comment in place of a tool that cannot be replayed. -/
def ofTool (r : Record) (tool : String) : Note :=
  todo ("Step " ++ stepLabel r.step ++ " - Unsupported tool: ") tool

/-- The comment in place of an expected text that may hold values of variables. -/
def ofWithheld (vars : List String) : Note :=
  todo ("expected text depends on " ++ ", ".intercalate (vars.map envKey) ++
    " and was not exported") ""

/-- The comment that stands for the statement of a record. -/
def ofRecord? (r : Record) (ctx : Context) : Option Note :=
  match r.tool with
  | .other tool => some (ofTool r tool)
  | .assertText =>
    match asserted? ctx r.input.expectedText? with
    | some (.withheld vars) => some (ofWithheld vars)
    | _ => none
  | _ => none

end Note

/-- The comments of a step: the one above its statements, and those in place of
statements. -/
def notesOf (records : List Record) (sources : StepSources) (base : Context) (step : Step) :
    List Note :=
  let ctx := base.ofStep sources step
  if fragmentsOf records sources base step = [] then []
  else
    Note.ofStep step ctx ::
      if recordsOfStep records step.index = [] then [Note.ofMissing step ctx]
      else (recordsOfStep records step.index).filterMap (Note.ofRecord? · ctx)

theorem code_todo (what : String) :
    (Statement.todo what).code = "  // " ++ ("TODO: " ++ what) := by
  rw [← String.append_assoc]
  rfl

theorem line_ofMissing (step : Step) (ctx : Context) : (Note.ofMissing step ctx).line =
    "  // TODO: Step " ++ toString step.index ++ " - No IR record found for: " ++
      comment step.text ctx := by
  have hlead : "  // " ++ "TODO: " ++ "Step " = "  // TODO: Step " := by decide
  simp only [Note.line, Note.text, Note.ofMissing, Note.todo, comment_eq_flattenLine,
    ← String.append_assoc]
  rw [hlead]

theorem code_todo_ne (what : String) : (Statement.todo what).code ≠ "" := by
  intro h
  have hlength := congrArg String.length h
  simp [code_todo] at hlength

theorem generate_ofRecord {r : Record} {ctx : Context} {n : Note}
    (h : Note.ofRecord? r ctx = some n) :
    ∃ what, generate r ctx = .ok (.todo what) ∧ n.text = "TODO: " ++ what := by
  unfold Note.ofRecord? at h
  split at h
  · rename_i tool htool
    cases h
    refine ⟨"Step " ++ stepLabel r.step ++ " - Unsupported tool: " ++ flattenLine tool, ?_, ?_⟩
    · rw [generate_eq_ok, statement, htool]
      rfl
    · simp only [Note.text, Note.ofTool, Note.todo, String.append_assoc]
  · rename_i htool
    split at h
    · rename_i vars hvars
      cases h
      refine ⟨"expected text depends on " ++ ", ".intercalate (vars.map envKey) ++
        " and was not exported", ?_, ?_⟩
      · rw [generate_eq_ok, statement, htool]
        simp only [hvars]
        rfl
      · have hempty : flattenLine "" = "" := by decide
        simp only [Note.text, Note.ofWithheld, Note.todo, hempty, String.append_empty]
    · simp at h
  · simp at h

theorem ofRecord_of_generate {r : Record} {ctx : Context} {what : String}
    (h : generate r ctx = .ok (.todo what)) :
    ∃ n, Note.ofRecord? r ctx = some n ∧ n.text = "TODO: " ++ what := by
  generalize hs : Statement.todo what = s at h
  have hfound : (Note.ofRecord? r ctx).isSome := by
    cases replays_of_generate h with
    | fill htool hlocator hfill =>
        obtain ⟨text, note, rfl, -⟩ := fillWith_cases hfill
        cases hs
    | @text text htool htext =>
        cases text with
        | withheld vars => simp [Note.ofRecord?, htool, htext]
        | _ => cases hnth : r.input.visibleNth? <;> simp [checkAsserted, checkText, hnth] at hs
    | unsupported htool => simp [Note.ofRecord?, htool]
    | _ => cases hs
  obtain ⟨n, hn⟩ := Option.isSome_iff_exists.1 hfound
  obtain ⟨what', hgenerate, htext⟩ := generate_ofRecord hn
  rw [h, ← hs] at hgenerate
  cases hgenerate
  exact ⟨n, hn, htext⟩

/-! ### Where comments stand -/

theorem mem_distinguishAll_comment {text : String} (htext : '\n' ∉ text.toList)
    {codes : List String} (h : "  // " ++ text ∈ codes) (r : Registry) :
    "  // " ++ text ∈ (distinguishAll r codes).1 := by
  induction codes generalizing r with
  | nil => simp at h
  | cons code codes ih =>
      rw [distinguishAll]
      rcases List.mem_cons.1 h with heq | h
      · rw [← heq]
        exact List.mem_cons.2 (.inl (distinguish_comment htext r).symm)
      · exact List.mem_cons_of_mem _ (ih h _)

/-- A step with fragments has a block, with the fragments under the names that they
have got. -/
theorem exists_mem_blocks {d : Draft} {ds : List Draft} (h : d ∈ ds) (hd : d.fragments ≠ [])
    (r : Registry) : ∃ r',
      ⟨d.index, d.comment, "\n".intercalate (distinguishAll r' d.fragments).1⟩ ∈ blocks r ds := by
  induction ds generalizing r with
  | nil => simp at h
  | cons first ds ih =>
      rw [blocks]
      rcases List.mem_cons.1 h with rfl | h
      · rw [if_neg (by simpa using hd)]
        exact ⟨r, List.mem_cons_self⟩
      · split
        · exact ih h r
        · obtain ⟨r', hmem⟩ := ih h (distinguishAll r first.fragments).2
          exact ⟨r', List.mem_cons_of_mem _ hmem⟩

variable {spec : Spec} {records : List Record} {sources : StepSources} {base : Context}
  {step : Step}

/-- The comments of a step are the one above its block and some of its fragments. -/
theorem line_of_mem_notesOf {n : Note} (h : n ∈ notesOf records sources base step) :
    fragmentsOf records sources base step ≠ [] ∧
      (n = Note.ofStep step (base.ofStep sources step) ∨
        n.line ∈ fragmentsOf records sources base step) := by
  unfold notesOf at h
  simp only at h
  split at h
  · simp at h
  · rename_i hne
    refine ⟨hne, (List.mem_cons.1 h).imp_right fun h => ?_⟩
    unfold fragmentsOf
    split at h
    · rename_i hnone
      rw [if_pos hnone, List.mem_singleton, List.mem_singleton.1 h, line_ofMissing]
    · rename_i hsome
      obtain ⟨r, hr, hn⟩ := List.mem_filterMap.1 h
      obtain ⟨what, hgenerate, htext⟩ := generate_ofRecord hn
      have hline : n.line = (Statement.todo what).code := by rw [code_todo, Note.line, htext]
      rw [if_neg hsome, hline]
      refine List.mem_filter.2 ⟨List.mem_filterMap.2 ⟨r, hr, by rw [hgenerate]; rfl⟩, ?_⟩
      simpa using code_todo_ne what

theorem blocks_of_plan {p : Plan} (h : plan spec records sources base = .ok p) :
    ∃ r, p.blocks = blocks r (drafts spec records sources base) := by
  unfold plan at h
  simp only at h
  split at h
  · cases h
    exact ⟨_, rfl⟩
  · cases h

theorem isLineOf_blocks {p : Plan} (h : plan spec records sources base = .ok p)
    (hstep : step ∈ spec.steps) {n : Note} (hn : n ∈ notesOf records sources base step)
    (hbreak : '\n' ∉ n.text.toList) :
    IsLineOf n.line ("\n" ++ "\n".intercalate (p.blocks.map Block.code) ++ "\n") := by
  obtain ⟨hne, hline⟩ := line_of_mem_notesOf hn
  obtain ⟨r, hblocks⟩ := blocks_of_plan h
  rw [← fragments_ofStep] at hne hline
  let d := Draft.ofStep records (base.ofStep sources step) step
  have hd : d ∈ drafts spec records sources base := List.mem_map.2 ⟨step, hstep, rfl⟩
  obtain ⟨r', hblock⟩ := exists_mem_blocks hd hne r
  rw [← hblocks] at hblock
  refine IsLineOf.trans ?_ (isLineOf_intercalate (List.mem_map_of_mem hblock))
  have hcode : Block.code ⟨d.index, d.comment, "\n".intercalate (distinguishAll r' d.fragments).1⟩ =
      (Note.ofStep step (base.ofStep sources step)).line ++ "\n" ++
        "\n".intercalate (distinguishAll r' d.fragments).1 := by
    have hlead : "  // " ++ "Step " = "  // Step " := by decide
    simp only [Block.code, Note.line, Note.text, Note.ofStep, ← String.append_assoc, hlead]
    rfl
  rw [hcode]
  rcases hline with rfl | hline
  · exact ⟨"", "\n".intercalate (distinguishAll r' d.fragments).1 ++ "\n",
      by simp only [String.append_assoc, String.empty_append]⟩
  · obtain ⟨before, after, hfragment⟩ :=
      isLineOf_intercalate (mem_distinguishAll_comment hbreak hline r')
    refine ⟨"\n" ++ (Note.ofStep step (base.ofStep sources step)).line ++ before, after, ?_⟩
    simp only [String.append_assoc] at hfragment ⊢
    rw [hfragment]
    rfl

/-! ### What comments are made of -/

theorem staysOnLine_toString (n : Nat) : StaysOnLine (toString n) :=
  staysOnLine_of_class (p := Char.isDigit) (by decide) fun _ => isDigit_of_mem_toString

theorem staysOnLine_envKey {var : String} (h : Placeholder.isName var) :
    StaysOnLine (envKey var) := by
  refine staysOnLine_append.2 ⟨by decide, ?_⟩
  exact staysOnLine_of_class (p := Placeholder.isNameChar) (by decide)
    (Placeholder.isName_iff.1 h).letters

theorem isName_of_withheld {ctx : Context} (hctx : ctx.IsNamed) {recorded : Option String}
    {vars : List String} (h : asserted? ctx recorded = some (.withheld vars)) :
    ∀ var ∈ vars, Placeholder.isName var := by
  unfold asserted? assertedFrom? at h
  cases hsource : ctx.source with
  | none => simp [hsource] at h
  | some source =>
      simp only [hsource] at h
      split at h
      · simp at h
      · split at h
        · split at h
          · simp at h
          · cases h
            exact fun var hvar => hctx source hsource var (List.mem_filter.1 hvar).1
        · simp at h

/-- What the exporter writes itself ends no line. -/
theorem staysOnLine_lead (hctx : (base.ofStep sources step).IsNamed) {n : Note}
    (hn : n ∈ notesOf records sources base step) : StaysOnLine n.lead := by
  unfold notesOf at hn
  simp only at hn
  split at hn
  · simp at hn
  · rcases List.mem_cons.1 hn with rfl | hn
    · exact staysOnLine_append.2
        ⟨staysOnLine_append.2 ⟨by decide, staysOnLine_toString _⟩, by decide⟩
    · split at hn
      · obtain rfl := List.mem_singleton.1 hn
        exact staysOnLine_append.2 ⟨by decide, staysOnLine_append.2
          ⟨staysOnLine_append.2 ⟨by decide, staysOnLine_toString _⟩, by decide⟩⟩
      · obtain ⟨r, -, hr⟩ := List.mem_filterMap.1 hn
        unfold Note.ofRecord? at hr
        split at hr
        · cases hr
          have hlabel : StaysOnLine (stepLabel r.step) := by
            cases r.step with
            | none => decide
            | some i => exact staysOnLine_toString i
          exact staysOnLine_append.2 ⟨by decide, staysOnLine_append.2
            ⟨staysOnLine_append.2 ⟨by decide, hlabel⟩, by decide⟩⟩
        · split at hr
          · rename_i vars hvars
            cases hr
            have hkeys : StaysOnLine (", ".intercalate (vars.map envKey)) := by
              refine staysOnLine_intercalate (by decide) fun key hkey => ?_
              obtain ⟨var, hvar, rfl⟩ := List.mem_map.1 hkey
              exact staysOnLine_envKey (isName_of_withheld hctx hvars var hvar)
            exact staysOnLine_append.2 ⟨by decide, staysOnLine_append.2
              ⟨staysOnLine_append.2 ⟨by decide, hkeys⟩, by decide⟩⟩
          · simp at hr
        · simp at hr

theorem staysOnLine_navigatedPath {text path : String} {ctx : Context}
    (h : navigatedPath? text ctx = some path) : StaysOnLine path := by
  have hpath : ∃ base url, Url.relativeToOrigin? base url = some path := by
    unfold navigatedPath? at h
    simp only [Option.bind_eq_bind, Option.bind_eq_some_iff] at h
    obtain ⟨target, -, h⟩ := h
    split at h
    · obtain ⟨⟨found, var⟩, hrebased, rfl⟩ := Option.map_eq_some_iff.1 h
      unfold rebased? at hrebased
      split at hrebased
      · rename_i hown
        cases hrebased
        exact ⟨_, _, hown⟩
      · obtain ⟨found', hlogin, heq⟩ := Option.map_eq_some_iff.1 hrebased
        cases heq
        obtain ⟨login, -, hlogin⟩ := Option.bind_eq_some_iff.1 hlogin
        exact ⟨_, _, hlogin⟩
    · simp at h
  obtain ⟨base, url, hrelative⟩ := hpath
  exact staysOnLine_of_class (p := (!Url.isAlwaysEscaped ·)) (by decide) fun c hc => by
    simpa using Url.isPrintable_relativeToOrigin hrelative c hc

/-- What the comment of a step shows has a separator only if the text of the step has
one, or the text with its variables. -/
theorem not_hasSeparator_shownText {text : String} {ctx : Context} (htext : ¬ HasSeparator text)
    (hsource : ∀ source ∈ ctx.source, ¬ HasSeparator source.text) :
    ¬ HasSeparator (shownText text ctx) := by
  have hplain : ¬ HasSeparator (plainComment text ctx) := by
    unfold plainComment
    split
    · rename_i path hpath
      exact not_hasSeparator_of_staysOnLine
        (staysOnLine_append.2 ⟨by decide, staysOnLine_navigatedPath hpath⟩)
    · exact htext
  unfold shownText
  split
  · rename_i source hctx
    split
    · exact hplain
    · rintro ⟨c, hc, hseparator⟩
      rw [keyedText, String.toList_ofList] at hc
      rcases Placeholder.mem_replace hc with hc | ⟨name, hname, hc⟩
      · exact hsource source hctx ⟨c, hc, hseparator⟩
      · have hkey : StaysOnLine (envKey (String.ofList name)) := staysOnLine_envKey
          (Placeholder.isName_iff.2 (by simpa using Placeholder.isVariable_of_mem_pieces hname))
        refine not_hasSeparator_of_staysOnLine hkey ⟨c, ?_, hseparator⟩
        rw [envKey, String.toList_append, String.toList_ofList]
        simpa using hc
  · exact hplain

/-- The texts from outside that the comments of a step may show. -/
def outsideTexts (records : List Record) (sources : StepSources) (step : Step) : List String :=
  step.text :: (sources.get? step.index).toList.map (·.text) ++
    (recordsOfStep records step.index).filterMap fun r =>
      match r.tool with
      | .other tool => some tool
      | _ => none

theorem not_hasSeparator_shown (h : ∀ text ∈ outsideTexts records sources step, ¬ HasSeparator text)
    {n : Note} (hn : n ∈ notesOf records sources base step) : ¬ HasSeparator n.shown := by
  have hshown : ¬ HasSeparator (shownText step.text (base.ofStep sources step)) := by
    refine not_hasSeparator_shownText (h _ (by simp [outsideTexts])) fun source hsource => ?_
    refine h _ ?_
    have hget : sources.get? step.index = some source := hsource
    simp [outsideTexts, hget]
  unfold notesOf at hn
  simp only at hn
  split at hn
  · simp at hn
  · rcases List.mem_cons.1 hn with rfl | hn
    · exact hshown
    · split at hn
      · obtain rfl := List.mem_singleton.1 hn
        exact hshown
      · obtain ⟨r, hr, hrecord⟩ := List.mem_filterMap.1 hn
        unfold Note.ofRecord? at hrecord
        split at hrecord
        · rename_i tool htool
          cases hrecord
          exact h _ (List.mem_append_right _ (List.mem_filterMap.2 ⟨r, hr, by rw [htool]; rfl⟩))
        · split at hrecord
          · cases hrecord
            simp [HasSeparator, Note.ofWithheld, Note.todo]
          · simp at hrecord
        · simp at hrecord

end TraceExport.Replay

namespace TraceExport.Export

open Trace Replay Text

theorem isLineOf_testFile {p : Plan} {line : String} (name helper : String)
    (h : IsLineOf line ("\n" ++ "\n".intercalate (p.blocks.map Block.code) ++ "\n")) :
    IsLineOf line (testFile p name helper) := by
  have hopen : ", async (\x7b page \x7d) => \x7b\n" =
      ", async (\x7b page \x7d) => \x7b" ++ "\n" := rfl
  have hclose : "\n\x7d)\n" = "\n" ++ "\x7d)\n" := rfl
  have hblocks :
      IsLineOf ("\n".intercalate (p.blocks.map Block.code)) (testFile p name helper) := by
    unfold testFile
    rw [hopen, hclose]
    simp only [IsLineOf, ← String.append_assoc]
    exact ⟨_, _, rfl⟩
  exact h.trans hblocks

variable {o : Options} {records : List Record} {content : String} {step : Spec.Step}

theorem isNamed_ofStep (o : Options) (step : Spec.Step) :
    (o.context.ofStep o.sources step).IsNamed :=
  isNamed_of_stepSources o.rawSpec o.context step.index

theorem not_mem_text {n : Note} (hn : n ∈ notesOf records o.sources o.context step) :
    '\n' ∉ n.text.toList ∧ '\r' ∉ n.text.toList := by
  have hlead := staysOnLine_lead (isNamed_ofStep o step) hn
  obtain ⟨hfeed, hreturn⟩ := not_mem_flattenLine n.shown
  rw [Note.text, String.toList_append, List.mem_append, List.mem_append]
  refine ⟨not_or.2 ⟨fun h => ?_, hfeed⟩, not_or.2 ⟨fun h => ?_, hreturn⟩⟩
  · exact absurd (hlead _ h) (by decide)
  · exact absurd (hlead _ h) (by decide)

theorem isLineOf_compile (h : compile o records = .ok content) (hstep : step ∈ o.spec.steps)
    {n : Note} (hn : n ∈ notesOf records o.sources o.context step) : IsLineOf n.line content := by
  obtain ⟨-, p, hplan, rfl⟩ := compile_eq_ok.1 h
  exact isLineOf_testFile _ _ (isLineOf_blocks hplan hstep hn (not_mem_text hn).1)

/-- Every comment of a step is a whole line of the test, among them those that stand
for statements. No line break of the text that it shows is left in it. It goes beyond
its line, as a script is read, iff this text has a line separator or a paragraph
separator, so it never does if neither the step nor its source nor the name of a tool
has one. -/
theorem comments_keep_to_line (h : compile o records = .ok content)
    (hstep : step ∈ o.spec.steps) :
    (∀ r ∈ recordsOfStep records step.index, ∀ what,
      generate r (o.context.ofStep o.sources step) = .ok (.todo what) →
        ∃ n ∈ notesOf records o.sources o.context step, n.text = "TODO: " ++ what) ∧
    ∀ n ∈ notesOf records o.sources o.context step,
      IsLineOf n.line content ∧ '\n' ∉ n.text.toList ∧ '\r' ∉ n.text.toList ∧
      (StaysOnLine n.text ↔ ¬ HasSeparator n.shown) ∧
      ((∀ text ∈ outsideTexts records o.sources step, ¬ HasSeparator text) →
        StaysOnLine n.text) := by
  constructor
  · intro r hr what hgenerate
    obtain ⟨n, hn, htext⟩ := ofRecord_of_generate hgenerate
    have hsome : recordsOfStep records step.index ≠ [] := List.ne_nil_of_mem hr
    have hcode : (Script.Statement.todo what).code ∈
        fragmentsOf records o.sources o.context step := by
      unfold fragmentsOf
      rw [if_neg hsome]
      exact List.mem_filter.2 ⟨List.mem_filterMap.2 ⟨r, hr, by rw [hgenerate]; rfl⟩,
        by simpa using code_todo_ne what⟩
    refine ⟨n, ?_, htext⟩
    simp only [notesOf, if_neg (List.ne_nil_of_mem hcode), if_neg hsome]
    exact List.mem_cons_of_mem _ (List.mem_filterMap.2 ⟨r, hr, hn⟩)
  · intro n hn
    have hlead := staysOnLine_lead (isNamed_ofStep o step) hn
    have htext : StaysOnLine n.text ↔ ¬ HasSeparator n.shown := by
      rw [Note.text, staysOnLine_append, staysOnLine_flattenLine, and_iff_right hlead]
    exact ⟨isLineOf_compile h hstep hn, (not_mem_text hn).1, (not_mem_text hn).2, htext,
      fun houtside => htext.2 (not_hasSeparator_shown houtside hn)⟩

/-- A test with one step, which has this text. -/
def stepOptions (text : String) : Options where
  cwd := ⟨"/p"⟩
  runId := "r"
  specPath := ⟨"a.md"⟩
  spec := ⟨[], [⟨1, text, .action⟩]⟩
  baseUrl := "https://app.test"
  loginBaseUrl := none
  rawSpec := none
  exportDir := none

/-- The use of a tool that cannot be replayed, in the first step. -/
def toolRun (tool : String) : List Record :=
  [⟨"r", "a.md", some 1, .other tool, ⟨[]⟩, ⟨true, none, none⟩, none, none, 0⟩]

theorem exists_compile (text tool : String)
    (h : (compile (stepOptions text) (toolRun tool)).toOption.isSome) :
    ∃ content, compile (stepOptions text) (toolRun tool) = .ok content := by
  obtain ⟨content, hcontent⟩ := Option.isSome_iff_exists.1 h
  exact ⟨content, toOption_eq_some.1 hcontent⟩

theorem comments_keep_to_line_menu : ∃ content,
    compile (stepOptions "Open\r\nthe menu") (toolRun "hover\nover") = .ok content ∧
      IsLineOf "  // Step 1: Open the menu" content ∧ StaysOnLine "Step 1: Open the menu" ∧
      IsLineOf "  // TODO: Step 1 - Unsupported tool: hover over" content := by
  obtain ⟨content, hcontent⟩ :=
    exists_compile "Open\r\nthe menu" "hover\nover" (by decide +kernel)
  let step : Note := ⟨"Step 1: ", "Open\r\nthe menu"⟩
  let tool : Note := ⟨"TODO: Step 1 - Unsupported tool: ", "hover\nover"⟩
  have hstepText : step.text = "Step 1: Open the menu" := by decide
  have hstepLine : step.line = "  // Step 1: Open the menu" := by decide
  have htoolLine : tool.line = "  // TODO: Step 1 - Unsupported tool: hover over" := by decide
  obtain ⟨-, hkeep⟩ := comments_keep_to_line hcontent (List.mem_singleton.2 rfl)
  obtain ⟨hstep, -, -, -, hstays⟩ := hkeep step (by decide +kernel)
  obtain ⟨htool, -⟩ := hkeep tool (by decide +kernel)
  have houtside : ∀ text ∈ ["Open\r\nthe menu", "hover\nover"], ¬ HasSeparator text := by
    simp [HasSeparator, isLineSeparator]
  rw [hstepLine] at hstep
  rw [htoolLine] at htool
  rw [← hstepText]
  exact ⟨content, hcontent, hstep, hstays houtside, htool⟩

/-- A line separator is left in the comment, and what follows it is read as code. -/
theorem comment_separator : ∃ content,
    compile (stepOptions "Open\u2028alert(1)") (toolRun "hover") = .ok content ∧
      IsLineOf "  // Step 1: Open\u2028alert(1)" content ∧
      ¬ StaysOnLine "Step 1: Open\u2028alert(1)" := by
  obtain ⟨content, hcontent⟩ := exists_compile "Open\u2028alert(1)" "hover" (by decide +kernel)
  let step : Note := ⟨"Step 1: ", "Open\u2028alert(1)"⟩
  have hline : step.line = "  // Step 1: Open\u2028alert(1)" := by decide
  have hstep : step ∈ notesOf (toolRun "hover") (stepOptions "Open\u2028alert(1)").sources
      (stepOptions "Open\u2028alert(1)").context ⟨1, "Open\u2028alert(1)", .action⟩ := by
    decide +kernel
  refine ⟨content, hcontent, ?_, by decide⟩
  rw [← hline]
  exact isLineOf_compile hcontent (List.mem_singleton.2 rfl) hstep

end TraceExport.Export
