import TraceExport.Json.Decode

/-!
Specifications of tests. A specification lists what has to hold beforehand and
the numbered steps of the test. Step numbers are taken as they are written, so
they may repeat or leave gaps.
-/

namespace TraceExport

namespace Spec

/-- Whether a step does something or checks something. -/
inductive StepKind where
  | action
  | assertion
deriving DecidableEq, Repr

structure Step where
  index : Nat
  text : String
  kind : StepKind
deriving DecidableEq, Repr

end Spec

structure Spec where
  preconditions : List String
  steps : List Spec.Step
deriving DecidableEq, Repr

namespace Spec

def step? (spec : Spec) (index : Nat) : Option Step := spec.steps.find? (·.index == index)

open Json

def StepKind.name : StepKind → String
  | action => "action"
  | assertion => "assertion"

def StepKind.decode : Decoder StepKind :=
  asName [("action", action), ("assertion", assertion)]

def Step.decode : Decoder Step := fun value => do
  let fs ← fields ["index", "text", "kind"] value
  pure {
    index := ← required asNat32 fs "index"
    text := ← required asString fs "text"
    kind := ← defaulting .action StepKind.decode fs "kind" }

def Step.encode (s : Step) : Json :=
  object [("index", integer s.index), ("text", string s.text), ("kind", string s.kind.name)]

def decode : Decoder Spec := fun value => do
  let fs ← fields ["preconditions", "steps"] value
  pure {
    preconditions := ← defaulting [] (asList asString) fs "preconditions"
    steps := ← required (asList Step.decode) fs "steps" }

def encode (s : Spec) : Json :=
  object [("preconditions", array (s.preconditions.map string)),
    ("steps", array (s.steps.map Step.encode))]

end Spec

end TraceExport
