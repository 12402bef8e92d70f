import TraceExport.Proofs.Identifier
import TraceExport.Replay.Action

/-!
The statements that replaying a record can give, one rule for each tool (`Replays`).
A name is declared only for an element and for one of several places of a text. The
name then comes from the fingerprint of the element, from the text itself, or from
the variables that the text is made of; what a check refers to are variables of the
specification.
-/

namespace TraceExport.Script

/-- An expression for a text with variables in it. -/
inductive Expr.IsSymbolic : Expr → Prop where
  | binding {var : String} (h : Spec.Placeholder.isName var) : IsSymbolic (.binding var)
  | template {pieces : List Spec.Placeholder.Piece}
      (h : ∀ v ∈ pieces.filterMap Spec.Placeholder.Piece.name?, Spec.Placeholder.isName v) :
      IsSymbolic (.template pieces)

namespace Statement

def binding? : Statement → Option String
  | expectNthText name _ _ | expectElement name _ => some name
  | _ => none

/-- The statement with another name in place of the one that it declares. -/
def rebind (name : String) : Statement → Statement
  | expectNthText _ text nth => expectNthText name text nth
  | expectElement _ locator => expectElement name locator
  | s => s

/-- The recorded locator in the statement. -/
def locator? : Statement → Option String
  | click locator | fill locator _ _ | selectOption locator _ | expectElement _ locator =>
    some locator
  | _ => none

/-- The declaring statements that records are replayed by. -/
inductive IsDeclaring : Statement → Prop where
  | element (f : Trace.Fingerprint) (locator : String) :
      IsDeclaring (expectElement (elementName f) locator)
  | text (text : String) (nth : Nat) :
      IsDeclaring (expectNthText (textName text) (.literal text) nth)
  | symbolic {e : Expr} (he : e.IsSymbolic) (nth : Nat) :
      IsDeclaring (expectNthText (variablesName e.vars) e nth)

theorem rebind_self {s : Statement} {name : String} (h : s.binding? = some name) :
    s.rebind name = s := by
  cases s <;> simp_all [binding?, rebind]

theorem binding?_rebind {s : Statement} {name : String} (h : s.binding? = some name)
    (new : String) : (s.rebind new).binding? = some new := by
  cases s <;> simp_all [binding?, rebind]

theorem isBindable_of_isDeclaring {s : Statement} (hs : s.IsDeclaring) {name : String}
    (hname : s.binding? = some name) : IsBindable name := by
  cases hs with
  | element f locator =>
      obtain rfl : elementName f = name := by simpa [binding?] using hname
      exact isBindable_elementName f
  | text text nth =>
      obtain rfl : textName text = name := by simpa [binding?] using hname
      exact isBindable_textName text
  | symbolic he nth =>
      obtain rfl : variablesName _ = name := by simpa [binding?] using hname
      exact isBindable_variablesName _

end Statement

end TraceExport.Script

namespace TraceExport.Replay

open Script Spec Trace

/-- A text with variables is the binding of a variable, or it is cut at its
placeholders. -/
theorem ofTemplate?_cases {raw : String} {e : Expr} (h : Expr.ofTemplate? raw = some e) :
    (∃ var, Placeholder.isName var ∧ e = .binding var) ∨
      e = .template (Placeholder.pieces raw.toList) := by
  unfold Expr.ofTemplate? at h
  split at h
  · rename_i name hsole
    obtain rfl : Expr.binding (String.ofList name) = e := by simpa using h
    have hname := Placeholder.isVariable_of_sole? hsole
    exact .inl ⟨_, Placeholder.isName_iff.2 (by simpa using hname), rfl⟩
  · split at h
    · simp at h
    · obtain rfl : Expr.template (Placeholder.pieces raw.toList) = e := by simpa using h
      exact .inr rfl

theorem symbolicText?_cases {source : StepSource} {e : Expr} (h : symbolicText? source = some e) :
    (∃ var, Placeholder.isName var ∧ e = .binding var) ∨
      ∃ raw, e = .template (Placeholder.pieces raw) := by
  unfold symbolicText? at h
  split at h
  · rename_i name hfilter
    obtain rfl : Expr.binding (String.ofList name) = e := by simpa using h
    have hname := Placeholder.isVariable_of_sole? (Option.filter_eq_some_iff.1 hfilter).1
    exact .inl ⟨_, Placeholder.isName_iff.2 (by simpa using hname), rfl⟩
  · obtain ⟨raw, -, hraw⟩ := Option.bind_eq_some_iff.1 h
    exact (ofTemplate?_cases hraw).imp_right fun htemplate => ⟨_, htemplate⟩

/-- A text with variables is looked for only where the source of the step names it. -/
theorem symbolicText?_of_asserted? {ctx : Context} {recorded : Option String} {e : Expr}
    (h : asserted? ctx recorded = some (.symbolic e)) :
    ∃ source, ctx.source = some source ∧ symbolicText? source = some e := by
  unfold asserted? at h
  split at h
  · rename_i source hsource
    unfold assertedFrom? at h
    split at h
    · rename_i text htext
      obtain rfl : text = e := by simpa using h
      exact ⟨source, hsource, htext⟩
    · split at h
      · split at h <;> simp at h
      · simp at h
  · simp at h

theorem isSymbolic_of_asserted? {ctx : Context} {recorded : Option String} {e : Expr}
    (h : asserted? ctx recorded = some (.symbolic e)) : e.IsSymbolic := by
  obtain ⟨source, -, htext⟩ := symbolicText?_of_asserted? h
  obtain ⟨var, hvar, rfl⟩ | ⟨raw, rfl⟩ := symbolicText?_cases htext
  · exact .binding hvar
  · exact .template fun v hv => Placeholder.isName_of_mem_occurrences hv

theorem demand_bind_eq_ok {α β : Type} {cause : Cause} {value : Option α}
    {f : α → Except Cause β} {b : β} :
    (demand cause value >>= f) = .ok b ↔ ∃ a, value = some a ∧ f a = .ok b := by
  cases value with
  | none => simp [demand, bind, Except.bind]
  | some a => simp [demand, bind, Except.bind]

theorem toOption_eq_some {ε α : Type} {x : Except ε α} {a : α} :
    x.toOption = some a ↔ x = .ok a := by
  cases x <;> simp [Except.toOption]

theorem isDeclaring_of_checkAsserted {ctx : Context} {recorded : Option String}
    {text : AssertedText} (htext : asserted? ctx recorded = some text) {nth : Option Nat}
    {name : String} (hname : (checkAsserted nth text).binding? = some name) :
    (checkAsserted nth text).IsDeclaring := by
  cases nth with
  | none => cases text <;> simp [checkAsserted, checkText, Statement.binding?] at hname
  | some n =>
      cases text with
      | symbolic e => exact .symbolic (isSymbolic_of_asserted? htext) n
      | literal text => exact .text text n
      | withheld vars => simp [checkAsserted, Statement.binding?] at hname

/-- What is typed is the variable that the value comes from, or a literal. -/
theorem fillWith_cases {ctx : Context} {locator : String} {value : Option FillValue}
    {s : Statement} (h : fillWith ctx locator value = .ok s) :
    ∃ text note, s = .fill locator text note ∧ ((∃ literal, text = .literal literal) ∨
      ∃ var, text = .binding var ∧
        (Placeholder.isName var ∨ ctx.source.bind StepSource.valueVar? = some var)) := by
  unfold fillWith at h
  split at h
  · split at h
    · rename_i hname
      cases h
      exact ⟨_, _, rfl, .inr ⟨_, rfl, .inl hname⟩⟩
    · simp at h
  · cases h
    exact ⟨_, _, rfl, .inl ⟨_, rfl⟩⟩
  · split at h
    · rename_i hvar
      cases h
      exact ⟨_, _, rfl, .inr ⟨_, rfl, .inr hvar⟩⟩
    · cases h
      exact ⟨_, _, rfl, .inl ⟨_, rfl⟩⟩
  · cases h
    exact ⟨_, _, rfl, .inl ⟨_, rfl⟩⟩

theorem generate_eq_ok {r : Record} {ctx : Context} {s : Statement} :
    generate r ctx = .ok s ↔ statement r ctx = .ok s := by
  unfold generate
  cases statement r ctx with
  | error cause => constructor <;> rintro ⟨⟩
  | ok t =>
      constructor
      · rintro ⟨⟩
        rfl
      · rintro ⟨⟩
        rfl

/-- The statements that a record is replayed by, one rule for each tool. -/
inductive Replays (r : Record) (ctx : Context) : Statement → Prop where
  | goto {target : Expr} (htool : r.tool = .navigate)
      (htarget : target? ctx r.input.url? = some target) : Replays r ctx (.goto target)
  | click {locator : String} (htool : r.tool = .click)
      (hlocator : r.locatorCode? = some locator) : Replays r ctx (.click locator)
  | fill {locator : String} {s : Statement} (htool : r.tool = .fill)
      (hlocator : r.locatorCode? = some locator)
      (hfill : fillWith ctx locator r.input.fillValue? = .ok s) : Replays r ctx s
  | selectOption {locator label : String} (htool : r.tool = .selectOption)
      (hlocator : r.locatorCode? = some locator) (hlabel : r.input.label? = some label) :
      Replays r ctx (.selectOption locator label)
  | text {text : AssertedText} (htool : r.tool = .assertText)
      (htext : asserted? ctx r.input.expectedText? = some text) :
      Replays r ctx (checkAsserted r.input.visibleNth? text)
  | element {locator : String} (htool : r.tool = .assertElement)
      (hlocator : r.locatorCode? = some locator) :
      Replays r ctx (.expectElement (elementName r.fingerprint) locator)
  | nothing (htool : r.tool = .scroll) : Replays r ctx .nothing
  | pause {seconds : Float} (htool : r.tool = .wait)
      (hseconds : r.input.seconds? = some seconds) : Replays r ctx (.pause (milliseconds seconds))
  | unsupported {tool : String} (htool : r.tool = .other tool) : Replays r ctx
      (.todo ("Step " ++ stepLabel r.step ++ " - Unsupported tool: " ++ Text.flattenLine tool))

theorem replays_of_generate {r : Record} {ctx : Context} {s : Statement}
    (h : generate r ctx = .ok s) : Replays r ctx s := by
  have hs := generate_eq_ok.1 h
  unfold statement at hs
  cases htool : r.tool with rw [htool] at hs
  | navigate =>
      obtain ⟨target, htarget, ⟨⟩⟩ := demand_bind_eq_ok.1 hs
      exact .goto htool htarget
  | click =>
      obtain ⟨locator, hlocator, ⟨⟩⟩ := demand_bind_eq_ok.1 hs
      exact .click htool hlocator
  | fill =>
      obtain ⟨locator, hlocator, hfill⟩ := demand_bind_eq_ok.1 hs
      exact .fill htool hlocator hfill
  | selectOption =>
      obtain ⟨locator, hlocator, hrest⟩ := demand_bind_eq_ok.1 hs
      obtain ⟨label, hlabel, ⟨⟩⟩ := demand_bind_eq_ok.1 hrest
      exact .selectOption htool hlocator hlabel
  | assertText =>
      obtain ⟨text, htext, ⟨⟩⟩ := demand_bind_eq_ok.1 hs
      exact .text htool htext
  | assertElement =>
      obtain ⟨locator, hlocator, ⟨⟩⟩ := demand_bind_eq_ok.1 hs
      exact .element htool hlocator
  | scroll =>
      cases hs
      exact .nothing htool
  | wait =>
      obtain ⟨seconds, hseconds, ⟨⟩⟩ := demand_bind_eq_ok.1 hs
      exact .pause htool hseconds
  | other tool =>
      cases hs
      exact .unsupported htool

/-- A statement that declares a name declares it for an element or for a text. -/
theorem isDeclaring_of_generate {r : Record} {ctx : Context} {s : Statement}
    (h : generate r ctx = .ok s) {name : String} (hname : s.binding? = some name) :
    s.IsDeclaring := by
  cases replays_of_generate h with
  | text htool htext => exact isDeclaring_of_checkAsserted htext hname
  | @element locator htool hlocator => exact .element r.fingerprint locator
  | fill htool hlocator hfill =>
      obtain ⟨text, note, rfl, -⟩ := fillWith_cases hfill
      simp [Statement.binding?] at hname
  | _ => simp [Statement.binding?] at hname

end TraceExport.Replay
