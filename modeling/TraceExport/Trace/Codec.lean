import TraceExport.Json.Decode
import TraceExport.Json.Parser
import TraceExport.Trace.Record

/-!
Records as JSON. Fields that a record does not have are passed over, so that
newer agents may add some; fields without a value are left out when a record is
written, except for the step.
-/

namespace TraceExport.Trace

open Json

namespace FillValue

/-- Reads how a value was captured: an object with its `kind`, or an array that
begins with it. -/
def decode? : Json → Option FillValue
  | object members =>
    match member? "kind" members with
    | some (string "literal") =>
      match member? "value" members with
      | some (string value) => some (literal value)
      | _ => none
    | some (string "template_var") =>
      match member? "name" members with
      | some (string name) => some (ofVariable name)
      | _ => none
    | some (string "redacted") => some redacted
    | _ => none
  | array [string "literal", string value] => some (literal value)
  | array [string "template_var", string name] => some (ofVariable name)
  | array [string "redacted"] => some redacted
  | _ => none

def encode : FillValue → Json
  | literal value => object [("kind", string "literal"), ("value", string value)]
  | ofVariable name => object [("kind", string "template_var"), ("name", string name)]
  | redacted => object [("kind", string "redacted")]

end FillValue

namespace ToolInput

def fillValue? (i : ToolInput) : Option FillValue := (i.get? "fillValue").bind FillValue.decode?

/-- Reads an input; null stands for the empty one. -/
def decode : Decoder ToolInput
  | null => .ok empty
  | value =>
    match plain? value with
    | some (object members) => .ok ⟨members⟩
    | _ => .error (.mismatch "an object")

def encode (i : ToolInput) : Json := object i.members

end ToolInput

namespace Outcome

def decode : Decoder Outcome := fun value => do
  let fs ← fields ["ok", "errorCode", "errorMessage"] value
  pure {
    ok := ← required asBool fs "ok"
    errorCode := ← optional asString fs "errorCode"
    errorMessage := ← optional asString fs "errorMessage" }

def encode (o : Outcome) : Json :=
  object (("ok", bool o.ok) :: memberOf? "errorCode" string o.errorCode ++
    memberOf? "errorMessage" string o.errorMessage)

end Outcome

namespace Fingerprint

def decode : Decoder Fingerprint := fun value => do
  let fs ← fields ["tagName", "role", "accessibleName", "id", "nameAttr", "typeAttr",
    "placeholder", "ariaLabel", "testId", "textSnippet"] value
  pure {
    tagName := ← optional asString fs "tagName"
    role := ← optional asString fs "role"
    accessibleName := ← optional asString fs "accessibleName"
    id := ← optional asString fs "id"
    nameAttr := ← optional asString fs "nameAttr"
    typeAttr := ← optional asString fs "typeAttr"
    placeholder := ← optional asString fs "placeholder"
    ariaLabel := ← optional asString fs "ariaLabel"
    testId := ← optional asString fs "testId"
    textSnippet := ← optional asString fs "textSnippet" }

def encode (f : Fingerprint) : Json :=
  object (memberOf? "tagName" string f.tagName ++ memberOf? "role" string f.role ++
    memberOf? "accessibleName" string f.accessibleName ++ memberOf? "id" string f.id ++
    memberOf? "nameAttr" string f.nameAttr ++ memberOf? "typeAttr" string f.typeAttr ++
    memberOf? "placeholder" string f.placeholder ++ memberOf? "ariaLabel" string f.ariaLabel ++
    memberOf? "testId" string f.testId ++ memberOf? "textSnippet" string f.textSnippet)

end Fingerprint

namespace Validation

def decode : Decoder Validation := fun value => do
  let fs ← fields ["unique", "visible", "enabled"] value
  pure {
    unique := ← defaulting false asBool fs "unique"
    visible := ← optional asBool fs "visible"
    enabled := ← optional asBool fs "enabled" }

def encode (v : Validation) : Json :=
  object (("unique", bool v.unique) :: memberOf? "visible" bool v.visible ++
    memberOf? "enabled" bool v.enabled)

end Validation

namespace Locator

def decode : Decoder Locator := fun value => do
  let fs ← fields ["kind", "value", "code", "validation"] value
  pure {
    kind := ← defaulting "" asString fs "kind"
    value := ← defaulting "" asString fs "value"
    code := ← defaulting "" asString fs "code"
    validation := ← defaulting default Validation.decode fs "validation" }

def encode (l : Locator) : Json :=
  object [("kind", string l.kind), ("value", string l.value), ("code", string l.code),
    ("validation", l.validation.encode)]

end Locator

namespace Element

def decode : Decoder Element := fun value => do
  let fs ← fields ["fingerprint", "locatorCandidates", "chosenLocator"] value
  pure {
    fingerprint := ← defaulting default Fingerprint.decode fs "fingerprint"
    candidates := ← defaulting [] (asList Locator.decode) fs "locatorCandidates"
    chosen := ← optional Locator.decode fs "chosenLocator" }

def encode (e : Element) : Json :=
  object (("fingerprint", e.fingerprint.encode) ::
    ("locatorCandidates", array (e.candidates.map Locator.encode)) ::
    memberOf? "chosenLocator" Locator.encode e.chosen)

end Element

namespace Record

def fieldNames : List String :=
  ["runId", "specPath", "stepIndex", "toolName", "toolInput", "outcome", "element", "pageUrl",
    "timestamp"]

def decode : Decoder Record := fun value => do
  let fs ← fields fieldNames value
  pure {
    runId := ← defaulting "" asString fs "runId"
    specPath := ← defaulting "" asString fs "specPath"
    step := ← optional asNat32 fs "stepIndex"
    tool := Tool.ofName (← required asString fs "toolName")
    input := ← defaulting ToolInput.empty ToolInput.decode fs "toolInput"
    outcome := ← required Outcome.decode fs "outcome"
    element := ← optional Element.decode fs "element"
    pageUrl := ← optional asString fs "pageUrl"
    timestamp := ← defaulting 0 (asInteger (-Int.pow 2 63) (Int.pow 2 63 - 1)) fs "timestamp" }

def encode (r : Record) : Json :=
  object ([("runId", string r.runId), ("specPath", string r.specPath),
    ("stepIndex", (r.step.map fun (n : Nat) => integer n).getD null),
    ("toolName", string r.tool.name), ("toolInput", r.input.encode),
    ("outcome", r.outcome.encode)] ++
    memberOf? "element" Element.encode r.element ++ memberOf? "pageUrl" string r.pageUrl ++
    [("timestamp", integer r.timestamp)])

/-- The deepest nesting of an input that is read from a text; a whole record may
be one level deeper. -/
def inputDepthLimit : Nat := 126

/-- How deep the input of a record is nested as it is written. Whatever else a
record has is of a fixed depth, or passed over. -/
def inputDepth (value : Json) : Nat :=
  match fields fieldNames value with
  | .ok fs => ((fs "toolInput").map depth).getD 0
  | .error _ => 0

/-- Reads a record from the text of one line. -/
def read (line : String) : Except Fault Record :=
  match parse? line with
  | some value =>
    if inputDepth value ≤ inputDepthLimit then decode value
    else .error (.tooDeep inputDepthLimit)
  | none => .error .notJson

end Record

/-- The first line of a trace that holds no record, counted from one. -/
structure Malformed where
  line : Nat
  reason : String
deriving DecidableEq, Repr

/-- Reads the records of lines that are numbered from `number` on. Blank lines
are passed over, but counted. -/
def readLines (number : Nat) : List (List Char) → Except Malformed (List Record)
  | [] => .ok []
  | line :: lines =>
    if line.all Text.isBlank then readLines (number + 1) lines
    else
      match Record.read (String.ofList line) with
      | .error fault => .error ⟨number, fault.message⟩
      | .ok record => (readLines (number + 1) lines).map (record :: ·)

/-- Reads the text of a trace, one record a line. -/
def readRecords (text : String) : Except Malformed (List Record) :=
  readLines 1 (Text.lines text.toList)

end TraceExport.Trace
