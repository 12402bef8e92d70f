import TraceExport.Proofs.Destination
import TraceExport.Proofs.Generated

/-!
Steps that navigate to an address without variables. Such a step goes where its record says, as long
as its other words name no address with variables. One that they name is taken instead, unless it
might be no address and the recorded one is on a known address. The two are written differently,
but where the words name the very place that was recorded (`generate_recorded_iff`).
-/

namespace TraceExport.Replay

open Script Spec Trace

/-! ### Recorded addresses -/

/-- The path that a recorded address is written with and the variable of the address that it is on,
if its origin need not be written. -/
def place? (ctx : Context) (url : String) : Option (String × String) :=
  if looksAbsolute url then rebased? ctx url else some (url, Placeholder.baseUrl)

theorem canRebase_eq_isSome (ctx : Context) (url : String) :
    canRebase ctx url = (place? ctx url).isSome := by
  unfold canRebase place?
  cases looksAbsolute url <;> simp

theorem targetOfUrl_of_place? {ctx : Context} {url path var : String}
    (h : place? ctx url = some (path, var)) : targetOfUrl ctx url = .onAddress path var := by
  unfold place? at h
  unfold targetOfUrl
  split at h
  · rename_i habsolute
    rw [if_pos habsolute, h]
  · rename_i hrelative
    cases h
    rw [if_neg hrelative]

theorem targetOfUrl_of_no_place {ctx : Context} {url : String} (h : place? ctx url = none) :
    targetOfUrl ctx url = .literal url := by
  unfold place? at h
  unfold targetOfUrl
  split at h
  · rename_i habsolute
    rw [if_pos habsolute, h]
  · cases h

theorem isAddress_of_place? {ctx : Context} {url path var : String}
    (h : place? ctx url = some (path, var)) : Placeholder.isAddress var := by
  unfold place? at h
  split at h
  · exact isAddress_of_rebased? h
  · cases h
    rfl

/-! ### Texts of targets -/

theorem variableName_inj_of_isAddress {var var' : String} (hvar : Placeholder.isAddress var)
    (hvar' : Placeholder.isAddress var') (h : variableName var = variableName var') :
    var = var' := by
  simp only [Placeholder.isAddress, Bool.or_eq_true, beq_iff_eq] at hvar hvar'
  rcases hvar with rfl | rfl <;> rcases hvar' with rfl | rfl
  · rfl
  · exact absurd h (by decide)
  · exact absurd h (by decide)
  · rfl

/-- A path on an address can be read off the text that is written for it. -/
theorem onAddress_text_inj {path path' var var' : String}
    (h : (Expr.onAddress path var).text = (Expr.onAddress path' var').text) :
    path = path' ∧ variableName var = variableName var' := by
  have hshape : ∀ path var, (Expr.onAddress path var).text.toList = "new URL('".toList ++
      ((escapeQuoted path).toList ++ '\'' ::
        (", ".toList ++ ((variableName var).toList ++ ").toString()".toList))) := by
    intro path var
    simp [Expr.text, quoted]
  have htexts := congrArg String.toList h
  rw [hshape, hshape, List.append_cancel_left_eq] at htexts
  -- The paths may differ in length, so it takes reading them to see where each ends.
  have hread := congrArg readQuoted? htexts
  rw [readQuoted?_escapeQuoted, readQuoted?_escapeQuoted] at hread
  obtain ⟨hpath, hrest⟩ := Prod.mk.inj (Option.some.inj hread)
  rw [List.append_cancel_left_eq, List.append_cancel_right_eq] at hrest
  exact ⟨String.toList_inj.1 hpath, String.toList_inj.1 hrest⟩

/-- Whether an expression has a single quotation mark in it and is no template. -/
def isQuoting (e : Expr) : Bool := e.text.toList.contains '\'' && e.text.toList.head? != some '\x60'

theorem isQuoting_targetOfUrl (ctx : Context) (url : String) : isQuoting (targetOfUrl ctx url) := by
  cases h : place? ctx url with
  | none => simp [targetOfUrl_of_no_place h, isQuoting, Expr.text, quoted]
  | some place => simp [targetOfUrl_of_place? h, isQuoting, Expr.text, quoted]

theorem not_isQuoting_of_ofTemplate? {raw : String} {e : Expr} (h : Expr.ofTemplate? raw = some e) :
    isQuoting e = false := by
  obtain ⟨var, hvar, rfl⟩ | rfl := ofTemplate?_cases h
  · have hmark : '\'' ∉ (variableName var).toList := fun hmem =>
      absurd ((isBindable_variableName hvar).isIdentChar_of_mem _ hmem) (by decide)
    simp [isQuoting, Expr.text, hmark]
  · simp [isQuoting, Expr.text, backquote]

/-- A text with variables is written as the recorded address is only where it is the place of that
address. -/
theorem place_of_text_eq {ctx : Context} {url : String} {raw : List Char}
    (hvars : Placeholder.vars (String.ofList raw) ≠ [])
    (h : (targetOfText ctx raw).text = (targetOfUrl ctx url).text) :
    ∃ place, place? ctx url = some place ∧ pathOnAddress? raw = some place := by
  cases hpath : pathOnAddress? raw with
  | none =>
      -- A variable or a template is not written in quotation marks.
      obtain ⟨e, he, htarget⟩ := targetOfText_of_vars ctx hpath hvars
      have hquoting := isQuoting_targetOfUrl ctx url
      rw [isQuoting, ← h, htarget, ← isQuoting, not_isQuoting_of_ofTemplate? he] at hquoting
      cases hquoting
  | some named =>
      obtain ⟨path, var⟩ := named
      have htarget : targetOfText ctx raw = .onAddress path var := by simp [targetOfText, hpath]
      rw [htarget] at h
      cases hplace : place? ctx url with
      | none =>
          -- The recorded address is a literal and opens with its quotation mark.
          rw [targetOfUrl_of_no_place hplace] at h
          have hfirst := congrArg (fun s => s.toList.head?) h
          simp [Expr.text, quoted] at hfirst
      | some place =>
          obtain ⟨path', var'⟩ := place
          rw [targetOfUrl_of_place? hplace] at h
          obtain ⟨rfl, hname⟩ := onAddress_text_inj h
          obtain rfl := variableName_inj_of_isAddress (isAddress_of_pathOnAddress? hpath)
            (isAddress_of_place? hplace) hname
          exact ⟨_, rfl, rfl⟩

/-! ### Detours -/

/-- Whether an address with variables, named in the words of a step, takes the step nowhere else
than where its record says. -/
def KeepsTo (ctx : Context) (url : String) (token : List Char) : Prop :=
  ∃ place, place? ctx url = some place ∧
    (isAddressTemplate token = false ∨ pathOnAddress? token = some place)

/-- Where a step goes that names an address with variables besides the recorded one. -/
def preferred (ctx : Context) (url : String) (token : List Char) : Expr :=
  if isAddressTemplate token || (place? ctx url).isNone then targetOfText ctx token
  else targetOfUrl ctx url

section

variable (ctx : Context) (source : Option StepSource)

theorem rebased?_withSource : rebased? { ctx with source := source } = rebased? ctx := by
  funext url
  rw [rebased?, rebased?]

theorem targetOfUrl_withSource : targetOfUrl { ctx with source := source } = targetOfUrl ctx := by
  funext url
  rw [targetOfUrl, targetOfUrl, rebased?_withSource]

/-- Addresses are written alike whatever is known of the step. -/
theorem preferred_withSource : preferred { ctx with source := source } = preferred ctx := by
  funext url token
  have hplace : place? { ctx with source := source } url = place? ctx url := by
    rw [place?, place?, rebased?_withSource]
  have htext : targetOfText { ctx with source := source } token = targetOfText ctx token := by
    rw [targetOfText, targetOfText, targetOfUrl_withSource]
  rw [preferred, preferred, hplace, htext, targetOfUrl_withSource]

end

theorem preferred_of_keepsTo {ctx : Context} {url : String} {token : List Char}
    (h : KeepsTo ctx url token) : preferred ctx url token = targetOfUrl ctx url := by
  obtain ⟨place, hplace, huncertain | hpath⟩ := h
  · simp [preferred, huncertain, hplace]
  · have htoken : targetOfText ctx token = targetOfUrl ctx url := by
      rw [targetOfUrl_of_place? hplace, targetOfText, hpath]
    rw [preferred, htoken, ite_self]

theorem preferred_of_not_keepsTo {ctx : Context} {url : String} {token : List Char}
    (h : ¬ KeepsTo ctx url token) : preferred ctx url token = targetOfText ctx token := by
  refine if_pos ?_
  cases hplace : place? ctx url with
  | none => simp
  | some place =>
      have hcertain : isAddressTemplate token ≠ false := fun huncertain =>
        h ⟨place, hplace, .inl huncertain⟩
      simpa using hcertain

theorem keepsTo_of_text_eq {ctx : Context} {url : String} {token : List Char}
    (hvars : Placeholder.vars (String.ofList token) ≠ [])
    (h : (preferred ctx url token).text = (targetOfUrl ctx url).text) : KeepsTo ctx url token := by
  by_contra hleaves
  rw [preferred_of_not_keepsTo hleaves] at h
  obtain ⟨place, hplace, hpath⟩ := place_of_text_eq hvars h
  exact hleaves ⟨place, hplace, .inr hpath⟩

theorem target?_of_no_source {ctx : Context} (hsource : ctx.source = none) (url : String) :
    target? ctx (some url) = some (targetOfUrl ctx url) := by
  simp [target?, namedTarget?, Context.rawText?, hsource]

theorem target?_of_namedTarget? {ctx : Context} {source : StepSource}
    (hsource : ctx.source = some source) (hnamed : namedTarget? ctx = none) (url : String) :
    target? ctx (some url) = some
      ((addressToken? source.text.toList).elim (targetOfUrl ctx url) (preferred ctx url)) := by
  have hraw : ctx.rawText? = some source.text.toList := by simp [Context.rawText?, hsource]
  unfold target?
  simp only [hnamed, hraw, Option.bind_some, canRebase_eq_isSome]
  cases addressToken? source.text.toList with
  | none => rfl
  | some token =>
      cases htemplate : isAddressTemplate token <;> cases hplace : place? ctx url <;>
        simp [preferred, htemplate, hplace]

theorem generate_navigate {r : Record} (htool : r.tool = .navigate) {ctx : Context} {e : Expr}
    (h : target? ctx r.input.url? = some e) : generate r ctx = .ok (.goto e) := by
  refine generate_eq_ok.2 ?_
  rw [statement, htool]
  simp only [h]
  rfl

/-- What a statement adds to a script: its code, and what has to be declared for it. -/
def fragment (s : Statement) : String × Needs := (s.code, s.needs)

theorem text_of_fragment {e e' : Expr}
    (h : (Except.ok (.goto e) : Except Error Statement).map fragment =
      (Except.ok (.goto e') : Except Error Statement).map fragment) : e.text = e'.text := by
  have hcode : "  await page.goto(" ++ e.text ++ ");" = "  await page.goto(" ++ e'.text ++ ");" :=
    (Prod.mk.inj (Except.ok.inj h)).1
  rwa [String.append_left_inj, String.append_right_inj] at hcode

/-- A step that navigates to an address without variables goes where its record says when nothing is
known of its variables. With its source it gives the same fragment exactly if the first address
with variables in its text, if there is one, keeps to the recorded one, and otherwise it goes to
that address. -/
theorem generate_recorded_iff {source : StepSource} {target : List Char}
    (hnavigation : navigationTarget? source.text.toList = some target)
    (hplain : Placeholder.vars (String.ofList target) = []) {r : Record}
    (htool : r.tool = .navigate) {url : String} (hurl : r.input.url? = some url) (ctx : Context) :
    generate r { ctx with source := none } = .ok (.goto (targetOfUrl ctx url)) ∧
      ((generate r { ctx with source := some source }).map fragment =
          (generate r { ctx with source := none }).map fragment ↔
        ∀ token, addressToken? source.text.toList = some token → KeepsTo ctx url token) ∧
      ∀ token, addressToken? source.text.toList = some token → ¬ KeepsTo ctx url token →
        generate r { ctx with source := some source } = .ok (.goto (targetOfText ctx token)) := by
  have hbare : generate r { ctx with source := none } = .ok (.goto (targetOfUrl ctx url)) :=
    generate_navigate htool (by rw [hurl, target?_of_no_source rfl, targetOfUrl_withSource])
  have hnamed : namedTarget? { ctx with source := some source } = none := by
    simp [namedTarget?, Context.rawText?, hnavigation, hplain]
  have hsource : generate r { ctx with source := some source } = .ok (.goto
      ((addressToken? source.text.toList).elim (targetOfUrl ctx url) (preferred ctx url))) := by
    refine generate_navigate htool ?_
    rw [hurl, target?_of_namedTarget? rfl hnamed, targetOfUrl_withSource, preferred_withSource]
  refine ⟨hbare, ⟨fun heq token htoken => ?_, fun hkeeps => ?_⟩, fun token htoken hleaves => ?_⟩
  · rw [hbare, hsource, htoken, Option.elim_some] at heq
    exact keepsTo_of_text_eq (vars_of_addressToken? htoken) (text_of_fragment heq)
  · rw [hbare, hsource]
    cases htoken : addressToken? source.text.toList with
    | none => rw [Option.elim_none]
    | some token => rw [Option.elim_some, preferred_of_keepsTo (hkeeps token htoken)]
  · rw [hsource, htoken, Option.elim_some, preferred_of_not_keepsTo hleaves]

/-- A step that navigates to an address, with a variable in the words behind it. -/
def stepTo (url : String) : StepSource :=
  .ofText ("Navigate to " ++ url ++ " as \x7b\x7bUSERNAME\x7d\x7d")

def navigated (url : String) : Record where
  runId := "run-1"
  specPath := "specs/a.md"
  step := some 1
  tool := .navigate
  input := ⟨[("url", .string url)]⟩
  outcome := ⟨true, none, none⟩
  element := none
  pageUrl := none
  timestamp := 0

theorem generate_recorded_iff_dashboard :
    navigationTarget? (stepTo "https://example.com/dashboard").text.toList =
        some "https://example.com/dashboard".toList ∧
      (generate (navigated "https://example.com/dashboard") ⟨"https://example.com", none,
          some (stepTo "https://example.com/dashboard")⟩).map fragment =
        (generate (navigated "https://example.com/dashboard")
          ⟨"https://example.com", none, none⟩).map fragment := by
  have hnavigation : navigationTarget? (stepTo "https://example.com/dashboard").text.toList =
      some "https://example.com/dashboard".toList := by decide +kernel
  have htoken : addressToken? (stepTo "https://example.com/dashboard").text.toList =
      some "\x7b\x7bUSERNAME\x7d\x7d".toList := by decide +kernel
  have hkeeps : KeepsTo ⟨"https://example.com", none, none⟩ "https://example.com/dashboard"
      "\x7b\x7bUSERNAME\x7d\x7d".toList :=
    ⟨("/dashboard", "BASE_URL"), by decide +kernel, .inl (by decide +kernel)⟩
  refine ⟨hnavigation, (generate_recorded_iff hnavigation (by decide +kernel)
    (r := navigated "https://example.com/dashboard") rfl rfl
    ⟨"https://example.com", none, none⟩).2.1.2 fun token h => ?_⟩
  rw [htoken] at h
  cases h
  exact hkeeps

/-- An address on no known origin gives way to a variable that the step only mentions. -/
theorem generate_recorded_external :
    navigationTarget? (stepTo "https://external.com/page").text.toList =
        some "https://external.com/page".toList ∧
      Placeholder.vars "https://external.com/page" = [] ∧
      Url.isWebAddress "https://external.com/page" ∧
      (navigated "https://external.com/page").input.url? = some "https://external.com/page" ∧
      (generate (navigated "https://external.com/page")
        ⟨"https://example.com", none, some (stepTo "https://external.com/page")⟩).map fragment =
          .ok ("  await page.goto(username);", ⟨["USERNAME"], false⟩) ∧
      (generate (navigated "https://external.com/page") ⟨"https://example.com", none, none⟩).map
        fragment = .ok ("  await page.goto('https://external.com/page');", Needs.none) := by
  decide +kernel

end TraceExport.Replay
