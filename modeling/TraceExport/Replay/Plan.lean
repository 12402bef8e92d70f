import TraceExport.Replay.Comment
import TraceExport.Script.Registry

/-!
The plan of a whole test: every step of the specification with the statements
that replay its actions. The actions of a step are the records that went well
and carry its number, in the order of the trace. All errors are collected before
the plan is given up, and only then are the declarations of the statements given
names that differ all over the file.
-/

namespace TraceExport.Replay

open Script Spec Trace

def recordsOfStep (records : List Record) (index : Nat) : List Record :=
  records.filter fun r => r.isOk && r.step == some index

/-- A step with what replaying its records gave. -/
structure Draft where
  index : Nat
  comment : String
  results : List (Record × Except Error Statement)

def Draft.ofStep (records : List Record) (ctx : Context) (step : Step) : Draft where
  index := step.index
  comment := Replay.comment step.text ctx
  results := (recordsOfStep records step.index).map fun r => (r, generate r ctx)

/-- The drafts of all steps; `sources` tells which variables a step has. -/
def drafts (spec : Spec) (records : List Record) (sources : StepSources) (base : Context) :
    List Draft :=
  spec.steps.map fun step =>
    Draft.ofStep records { base with source := sources.get? step.index } step

/-- The bindings that are spoken for, each with its variable. -/
abbrev Bindings := List (String × String)

/-- What has been gathered from some results: the errors, the bindings of
variables, and what the script needs. -/
structure Tally where
  errors : List Error
  bindings : Bindings
  needs : Needs

def Tally.empty : Tally := ⟨[], [], Needs.none⟩

/-- Speaks for the binding of a variable that a record needs. Another variable
may have been there before. -/
def Tally.bind (t : Tally) (r : Record) (var : String) : Tally :=
  let name := variableName var
  match t.bindings.find? (·.1 == name) with
  | none => { t with bindings := t.bindings ++ [(name, var)] }
  | some (_, first) =>
    if first = var then t
    else { t with errors := t.errors ++ [Error.of r (.sharedName first var name)] }

def Tally.add (t : Tally) (result : Record × Except Error Statement) : Tally :=
  match result.2 with
  | .error e => { t with errors := t.errors ++ [e] }
  | .ok s =>
    let bound := s.needs.envVars.foldl (fun t var => t.bind result.1 var) t
    { bound with needs := bound.needs.merge s.needs }

/-- Gathers the results of all drafts, in the order of the steps. -/
def tally (ds : List Draft) : Tally := (ds.flatMap (·.results)).foldl Tally.add Tally.empty

/-- The statements of a draft as they are written. A step without records gets a
note instead. -/
def Draft.fragments (d : Draft) : List String :=
  if d.results.isEmpty then
    [(Statement.todo ("Step " ++ toString d.index ++ " - No IR record found for: " ++
      d.comment)).code]
  else
    (d.results.filterMap fun r => r.2.toOption).map Statement.code |>.filter (· != "")

structure Block where
  index : Nat
  comment : String
  body : String
deriving DecidableEq, Repr

def Block.code (b : Block) : String :=
  "  // Step " ++ toString b.index ++ ": " ++ b.comment ++ "\n" ++ b.body

/-- Gives the declarations of some fragments names that are not taken. -/
def distinguishAll (r : Registry) : List String → List String × Registry
  | [] => ([], r)
  | code :: rest =>
    let (code, r) := distinguish code r
    let (rest, r) := distinguishAll r rest
    (code :: rest, r)

def blocks (r : Registry) : List Draft → List Block
  | [] => []
  | d :: ds =>
    if d.fragments.isEmpty then blocks r ds
    else
      let (codes, r) := distinguishAll r d.fragments
      ⟨d.index, d.comment, "\n".intercalate codes⟩ :: blocks r ds

structure Plan where
  blocks : List Block
  needs : Needs
deriving DecidableEq, Repr

def plan (spec : Spec) (records : List Record) (sources : StepSources) (base : Context) :
    Except (List Error) Plan :=
  let ds := drafts spec records sources base
  let t := tally ds
  if t.errors.isEmpty then
    .ok ⟨blocks (Registry.seeded (t.bindings.map (·.1))) ds, t.needs⟩
  else .error t.errors

end TraceExport.Replay
