import TraceExport.Trace.Record
import TraceExport.Text.Basic

/-!
Why a recorded action cannot be replayed. Each error names the record that it
is about.
-/

namespace TraceExport.Replay

inductive Cause where
  | noLocator
  | noUrl
  | noLabel
  | noText
  | noSeconds
  | badVariable (name : String)
  /-- Two variables would have to share a binding. -/
  | sharedName (first second binding : String)
  /-- Any other reason, in its own words. -/
  | other (message : String)
deriving DecidableEq, Repr

def Cause.message : Cause → String
  | noLocator => "missing valid chosenLocator"
  | noUrl => "missing url in IR"
  | noLabel => "missing label in IR"
  | noText => "missing text in IR"
  | noSeconds => "missing valid seconds in IR"
  | badVariable name => "invalid template variable name '" ++ Text.flattenLine name ++ "'"
  | sharedName first second binding =>
    "variables " ++ first ++ " and " ++ second ++ " map to the same identifier '" ++ binding ++ "'"
  | other message => message

structure Error where
  step : Option Nat
  tool : Trace.Tool
  cause : Cause
deriving DecidableEq, Repr

def Error.of (r : Trace.Record) (cause : Cause) : Error := ⟨r.step, r.tool, cause⟩

def stepLabel : Option Nat → String
  | some step => toString step
  | none => "?"

def Error.message (e : Error) : String :=
  "Step " ++ stepLabel e.step ++ ": " ++ e.tool.name ++ " " ++ e.cause.message

end TraceExport.Replay
