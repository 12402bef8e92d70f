import TraceExport.Json.Basic
import TraceExport.Text.Basic

/-!
Recorded actions. A run of the browser agent leaves a trace, one record for
each tool that it called: the tool, what it was given, how it went, and the
element it was used on.
-/

namespace TraceExport.Trace

/-- The tool that a record comes from. It alone decides how the record is
replayed. Tools that are not known keep their name. -/
inductive Tool where
  | navigate
  | click
  | fill
  | selectOption
  | assertText
  | assertElement
  | scroll
  | wait
  | other (name : String)
deriving DecidableEq, Repr

namespace Tool

def name : Tool → String
  | navigate => "navigate"
  | click => "click"
  | fill => "fill"
  | selectOption => "select_option"
  | assertText => "assertTextPresent"
  | assertElement => "assertElementVisible"
  | scroll => "scroll"
  | wait => "wait"
  | other name => name

def ofName : String → Tool
  | "navigate" => navigate
  | "click" => click
  | "fill" => fill
  | "select_option" => selectOption
  | "assertTextPresent" => assertText
  | "assertElementVisible" => assertElement
  | "scroll" => scroll
  | "wait" => wait
  | name => other name

def isKnown : Tool → Bool
  | other _ => false
  | _ => true

def needsLocator : Tool → Bool
  | click | fill | selectOption | assertElement => true
  | _ => false

@[simp] theorem name_ofName (s : String) : (ofName s).name = s := by
  unfold ofName
  split <;> rfl

end Tool

/-- How the text typed by a `fill` was captured. -/
inductive FillValue where
  /-- Typed as it stands, and safe to write down. -/
  | literal (value : String)
  /-- The value of a variable of the specification. -/
  | ofVariable (name : String)
  /-- Typed, but not recoverable from the trace. -/
  | redacted
deriving DecidableEq, Repr

/-- What a tool was given, as raw JSON. Generators look up what they need, so
that an entry that is missing is no fault of the trace. -/
structure ToolInput where
  members : List (String × Json)
deriving Inhabited

structure Outcome where
  ok : Bool
  errorCode : Option String
  errorMessage : Option String
deriving DecidableEq, Repr

/-- What describes an element. It is used to find a name for it. -/
structure Fingerprint where
  tagName : Option String
  role : Option String
  accessibleName : Option String
  id : Option String
  nameAttr : Option String
  typeAttr : Option String
  placeholder : Option String
  ariaLabel : Option String
  testId : Option String
  textSnippet : Option String
deriving DecidableEq, Repr, Inhabited

structure Validation where
  unique : Bool
  visible : Option Bool
  enabled : Option Bool
deriving DecidableEq, Repr, Inhabited

/-- A way to find an element again; `code` is the expression for it. -/
structure Locator where
  kind : String
  value : String
  code : String
  validation : Validation
deriving DecidableEq, Repr

def Locator.isUsable (l : Locator) : Bool :=
  !Text.isBlankText l.code && l.validation.unique

structure Element where
  fingerprint : Fingerprint
  candidates : List Locator
  chosen : Option Locator
deriving DecidableEq, Repr

structure Record where
  runId : String
  specPath : String
  /-- The number of the step that the action belongs to. -/
  step : Option Nat
  tool : Tool
  input : ToolInput
  outcome : Outcome
  element : Option Element
  pageUrl : Option String
  timestamp : Int

namespace Record

def isOk (r : Record) : Bool := r.outcome.ok

/-- The code of the chosen locator, if it may be used. -/
def locatorCode? (r : Record) : Option String := do
  let locator ← (← r.element).chosen
  if locator.isUsable then some locator.code else none

def hasLocator (r : Record) : Bool := r.locatorCode?.isSome

/-- The fingerprint of the element; nothing is known of one that was not
captured. -/
def fingerprint (r : Record) : Fingerprint := (r.element.map (·.fingerprint)).getD default

end Record

namespace ToolInput

def empty : ToolInput := ⟨[]⟩

def get? (i : ToolInput) (name : String) : Option Json := Json.member? name i.members

def insert (i : ToolInput) (name : String) (value : Json) : ToolInput :=
  ⟨Json.setMember name value i.members⟩

def text? (i : ToolInput) (name : String) : Option String :=
  match i.get? name with
  | some (.string s) => if s = "" then none else some s
  | _ => none

def url? (i : ToolInput) : Option String := i.text? "url"

def label? (i : ToolInput) : Option String := i.text? "label"

def expectedText? (i : ToolInput) : Option String := i.text? "text"

def visibleNth? (i : ToolInput) : Option Nat :=
  match i.get? "visibleNth" with
  | some (.integer n) => if 0 ≤ n then some n.toNat else none
  | _ => none

def toDouble (n : Int) : Float :=
  if n < 0 then -n.natAbs.toUInt64.toFloat else n.natAbs.toUInt64.toFloat

/-- How long a `wait` lasted, in seconds; negative lengths do not count. -/
def seconds? (i : ToolInput) : Option Float :=
  let x? := match i.get? "seconds" with
    | some (.integer n) => some (toDouble n)
    | some (.float x) => some x
    | _ => none
  x?.filter fun x => x.isFinite && x >= 0.0

end ToolInput

end TraceExport.Trace
