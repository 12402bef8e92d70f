import TraceExport.Export.Location
import TraceExport.Files.Basic
import TraceExport.Json.Decode
import TraceExport.Json.Parser
import TraceExport.Url.Origin

/-!
The configuration of a project, a file in its root. It is shared with the agent
that records the runs; an export uses the directory it names, and of the rest
only the limits are checked.
-/

namespace TraceExport.Project

open Json

structure Guardrails where
  maxToolCallsPerSpec : Option Nat
  maxConsecutiveErrors : Option Nat
  maxRetriesPerStep : Option Nat
deriving DecidableEq, Repr

structure PlanGuardrails where
  maxAgentTurnsPerRun : Option Nat
  maxSnapshotsPerRun : Option Nat
  maxPagesPerRun : Option Nat
  maxTokenPerRun : Option Nat
deriving DecidableEq, Repr

inductive TestType where
  | functional
  | form
  | navigation
  | responsive
  | boundary
  | security
deriving DecidableEq, Repr

def TestType.name : TestType → String
  | functional => "functional"
  | form => "form"
  | navigation => "navigation"
  | responsive => "responsive"
  | boundary => "boundary"
  | security => "security"

structure Exploration where
  baseUrl : Option String
  maxDepth : Option Nat
  maxPages : Option Nat
  testTypes : Option (List TestType)
  guardrails : Option PlanGuardrails
deriving DecidableEq, Repr

structure Config where
  schemaVersion : Nat
  guardrails : Option Guardrails
  exportDir : Option String
  plan : Option Exploration
deriving DecidableEq, Repr

def Guardrails.decode : Decoder Guardrails := fun value => do
  let fs ← fields ["maxToolCallsPerSpec", "maxConsecutiveErrors", "maxRetriesPerStep"] value
  pure {
    maxToolCallsPerSpec := ← optional asPositive32 fs "maxToolCallsPerSpec"
    maxConsecutiveErrors := ← optional asPositive32 fs "maxConsecutiveErrors"
    maxRetriesPerStep := ← optional asPositive32 fs "maxRetriesPerStep" }

def PlanGuardrails.decode : Decoder PlanGuardrails := fun value => do
  let fs ← fields ["maxAgentTurnsPerRun", "maxSnapshotsPerRun", "maxPagesPerRun",
    "maxTokenPerRun"] value
  pure {
    maxAgentTurnsPerRun := ← optional asPositive32 fs "maxAgentTurnsPerRun"
    maxSnapshotsPerRun := ← optional asPositive32 fs "maxSnapshotsPerRun"
    maxPagesPerRun := ← optional asPositive32 fs "maxPagesPerRun"
    maxTokenPerRun := ← optional asPositive32 fs "maxTokenPerRun" }

def TestType.decode : Decoder TestType :=
  asName ([functional, form, navigation, responsive, boundary, security].map fun t => (t.name, t))

def Exploration.decode : Decoder Exploration := fun value => do
  let fs ← fields ["baseUrl", "maxDepth", "maxPages", "testTypes", "guardrails"] value
  pure {
    baseUrl := ← optional asString fs "baseUrl"
    maxDepth := ← optional asNat32 fs "maxDepth"
    maxPages := ← optional asPositive32 fs "maxPages"
    testTypes := ← optional (asList TestType.decode) fs "testTypes"
    guardrails := ← optional PlanGuardrails.decode fs "guardrails" }

def Config.decode : Decoder Config := fun value => do
  let fs ← closedFields ["schemaVersion", "guardrails", "exportDir", "plan"] value
  pure {
    schemaVersion := ← required asNat32 fs "schemaVersion"
    guardrails := ← optional Guardrails.decode fs "guardrails"
    exportDir := ← optional asString fs "exportDir"
    plan := ← optional Exploration.decode fs "plan" }

/-- The member for a number, left out when there is none. -/
def numberMember (name : String) (value : Option Nat) : List (String × Json) :=
  memberOf? name (fun (n : Nat) => integer n) value

def Guardrails.encode (g : Guardrails) : Json :=
  object (numberMember "maxToolCallsPerSpec" g.maxToolCallsPerSpec ++
    numberMember "maxConsecutiveErrors" g.maxConsecutiveErrors ++
    numberMember "maxRetriesPerStep" g.maxRetriesPerStep)

def PlanGuardrails.encode (g : PlanGuardrails) : Json :=
  object (numberMember "maxAgentTurnsPerRun" g.maxAgentTurnsPerRun ++
    numberMember "maxSnapshotsPerRun" g.maxSnapshotsPerRun ++
    numberMember "maxPagesPerRun" g.maxPagesPerRun ++
    numberMember "maxTokenPerRun" g.maxTokenPerRun)

def Exploration.encode (e : Exploration) : Json :=
  object (memberOf? "baseUrl" string e.baseUrl ++ numberMember "maxDepth" e.maxDepth ++
    numberMember "maxPages" e.maxPages ++
    memberOf? "testTypes" (fun types => array (types.map fun t => string t.name)) e.testTypes ++
    memberOf? "guardrails" PlanGuardrails.encode e.guardrails)

def Config.encode (c : Config) : Json :=
  object (("schemaVersion", integer c.schemaVersion) ::
    memberOf? "guardrails" Guardrails.encode c.guardrails ++
    memberOf? "exportDir" string c.exportDir ++ memberOf? "plan" Exploration.encode c.plan)

namespace Config

def fileName : String := "autoqa.config.json"

/-- The configuration of a project without a file. -/
def standard : Config where
  schemaVersion := 1
  guardrails := some ⟨some 200, some 8, some 5⟩
  exportDir := some Export.defaultDir.text
  plan := none

def maxPlanDepth : Nat := 10

inductive Error where
  | unreadable (e : FileError)
  | invalid (fault : Fault)
  | badVersion
  | tooDeep
  | badAddress
deriving DecidableEq, Repr

def Error.message : Error → String
  | unreadable _ => "Failed to read " ++ fileName
  | invalid _ => "Invalid " ++ fileName
  | badVersion => "schemaVersion must be at least 1"
  | tooDeep => "plan.maxDepth must be at most " ++ toString maxPlanDepth
  | badAddress => "plan.baseUrl must be an absolute http(s) URL"

/-- The message together with its cause. -/
def Error.chain (e : Error) : String :=
  match e with
  | unreadable cause => e.message ++ ": " ++ cause.message
  | invalid cause => e.message ++ ": " ++ cause.message
  | e => e.message

def validate (c : Config) : Except Error Config :=
  if c.schemaVersion = 0 then .error .badVersion
  else if ((c.plan.bind (·.maxDepth)).getD 0) > maxPlanDepth then .error .tooDeep
  else if (c.plan.bind (·.baseUrl)).any (!Url.isWebAddress ·) then .error .badAddress
  else .ok c

def read (text : String) : Except Error Config :=
  match parse? text with
  | none => .error (.invalid .notJson)
  | some value =>
    match decode value with
    | .error fault => .error (.invalid fault)
    | .ok c => c.validate

/-- Where tests are written, from the root of the project. -/
def exportPath (c : Config) : Path := (c.exportDir.map Path.mk).getD Export.defaultDir

def load {m : Type → Type} [Monad m] [FileSystem m] (cwd : Path) : m (Except Error Config) := do
  let path := cwd.join ⟨fileName⟩
  if (← FileSystem.kind? path).isNone then return .ok standard
  match ← FileSystem.readText path with
  | .error e => return .error (.unreadable e)
  | .ok text => return read text

end Config

end TraceExport.Project
