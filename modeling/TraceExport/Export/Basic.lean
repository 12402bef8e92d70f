import TraceExport.Export.Error
import TraceExport.Export.TestFile

/-!
Exporting tests. The trace is read, every action on an element is checked for a
locator, and the whole test is compiled before the first change is made to the
file system; then one file is written.
-/

namespace TraceExport.Export

open Trace Replay

structure Options where
  cwd : Path
  runId : String
  specPath : Path
  spec : Spec
  baseUrl : String
  loginBaseUrl : Option String
  /-- The specification before its variables got values. -/
  rawSpec : Option String
  exportDir : Option Path
deriving DecidableEq, Repr

/-- The actions that went well but lack a locator, in the order of the trace. -/
def missingLocators (records : List Record) : List MissingLocator :=
  (records.filter fun r => r.isOk && r.tool.needsLocator && !r.hasLocator).map
    MissingLocator.ofRecord

def validate (records : List Record) : Except Error Unit :=
  if records.isEmpty then .error .noRecords
  else
    let missing := missingLocators records
    if missing.isEmpty then .ok () else .error (.missingLocators missing)

def compile (o : Options) (records : List Record) : Except Error String := do
  validate records
  let sources := (o.rawSpec.map Spec.stepSources).getD []
  let plan ← (plan o.spec records sources ⟨o.baseUrl, o.loginBaseUrl, none⟩).mapError .replay
  pure (testFile plan (testName o.specPath.text)
    (helperImport o.cwd (o.exportDir.getD defaultDir)))

structure Written where
  path : Path
  shown : String
deriving DecidableEq, Repr

section

variable {m : Type → Type} [Monad m] [FileSystem m]

def loadRecords (cwd : Path) (runId : String) (spec : Path) :
    m (Except Error (List Record)) := do
  pure ((← readForSpec cwd runId spec).mapError .unreadable)

def writeTest (o : Options) (content : String) : m (Except Error Written) := do
  match ← FileSystem.makeDirectory (directory o.cwd o.exportDir) with
  | .error e => pure (.error (.write .directory e))
  | .ok () =>
    let path := path o.cwd o.specPath o.exportDir
    match ← FileSystem.writeText path content with
    | .error e => pure (.error (.write .file e))
    | .ok () => pure (.ok ⟨path, shownPath o.cwd o.specPath o.exportDir⟩)

/-- Exports the test for a specification from the trace of a run. -/
def run (o : Options) : m (Except Error Written) := do
  match ← loadRecords o.cwd o.runId o.specPath with
  | .error e => pure (.error e)
  | .ok records =>
    match compile o records with
    | .error e => pure (.error e)
    | .ok content => writeTest o content

/-- Checks, without writing, that a specification has a trace and that every
action on an element has a locator. -/
def check (cwd : Path) (runId : String) (spec : Path) : m (Except Error Unit) := do
  match ← loadRecords cwd runId spec with
  | .error e => pure (.error e)
  | .ok records => pure (validate records)

end

structure Exportability where
  exportable : Bool
  reason : Option String
  code : Option String
  missing : List MissingLocator
deriving DecidableEq, Repr

def Exportability.ofResult : Except Error Unit → Exportability
  | .ok () => ⟨true, none, none, []⟩
  | .error e => ⟨false, some e.message, some e.code, e.missing?.getD []⟩

structure Outcome where
  ok : Bool
  shownPath : Option String
  code : Option String
  reason : Option String
  missing : List MissingLocator
deriving DecidableEq, Repr

def Outcome.ofResult : Except Error Written → Outcome
  | .ok written => ⟨true, some written.shown, none, none, []⟩
  | .error e => ⟨false, none, some e.code, some e.reason, e.missing?.getD []⟩

/-- The member for missing locators, left out when there are none. -/
def missingMember (missing : List MissingLocator) : List (String × Json) :=
  if missing.isEmpty then [] else [("missingLocators", .array (missing.map MissingLocator.encode))]

def Exportability.members (e : Exportability) : List (String × Json) :=
  ("exportable", .bool e.exportable) :: Json.memberOf? "reason" .string e.reason ++
    Json.memberOf? "code" .string e.code ++ missingMember e.missing

def Outcome.members (o : Outcome) : List (String × Json) :=
  ("ok", .bool o.ok) :: Json.memberOf? "relativePath" .string o.shownPath ++
    Json.memberOf? "code" .string o.code ++ Json.memberOf? "reason" .string o.reason ++
    missingMember o.missing

end TraceExport.Export
