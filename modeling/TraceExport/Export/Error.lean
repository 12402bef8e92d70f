import TraceExport.Files.Basic
import TraceExport.Replay.Error
import TraceExport.Trace.Store

/-!
Why a test is not exported. Whatever the reason, no file is written then.
-/

namespace TraceExport.Export

/-- An action on an element whose locator may not be used. -/
structure MissingLocator where
  tool : Trace.Tool
  step : Option Nat
deriving DecidableEq, Repr

namespace MissingLocator

def ofRecord (r : Trace.Record) : MissingLocator := ⟨r.tool, r.step⟩

def text (m : MissingLocator) : String :=
  m.tool.name ++ " at " ++
    match m.step with
    | some step => "step " ++ toString step
    | none => "unknown step"

def encode (m : MissingLocator) : Json :=
  .object [("toolName", .string m.tool.name),
    ("stepIndex", (m.step.map fun (n : Nat) => Json.integer n).getD .null)]

end MissingLocator

inductive Writing where
  | directory
  | file
deriving DecidableEq, Repr

def Writing.text : Writing → String
  | directory => "create export directory"
  | file => "write export file"

inductive Error where
  | unreadable (e : Trace.ReadError)
  | noRecords
  | missingLocators (actions : List MissingLocator)
  | replay (errors : List Replay.Error)
  | write (what : Writing) (e : FileError)
deriving DecidableEq, Repr

namespace Error

def list (texts : List String) : String := "; ".intercalate texts

def message : Error → String
  | unreadable e => "Failed to read IR file: " ++ e.message
  | noRecords => "No IR records found for spec"
  | missingLocators actions =>
    toString actions.length ++ " action(s) missing valid chosenLocator: " ++
      list (actions.map MissingLocator.text)
  | replay errors => "Code generation failed: " ++ list (errors.map Replay.Error.message)
  | write what e => "Failed to " ++ what.text ++ ": " ++ e.message

/-- The code of the kind of error, which does not change. -/
def code : Error → String
  | unreadable _ => "IR_READ_FAILED"
  | noRecords => "NO_IR_RECORDS"
  | missingLocators _ => "MISSING_LOCATOR"
  | replay _ => "CODEGEN_ERROR"
  | write _ _ => "WRITE_FAILED"

def reason (e : Error) : String := "Export failed: " ++ e.message

def missing? : Error → Option (List MissingLocator)
  | missingLocators actions => some actions
  | _ => none

end Error

end TraceExport.Export
