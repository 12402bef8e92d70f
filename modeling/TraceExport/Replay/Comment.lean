import TraceExport.Replay.Action

/-!
The comment above the statements of a step. It shows the text of the step, but
no value that came from a variable, and of an address in the project's own
origins only the path.
-/

namespace TraceExport.Replay

open Spec

/-- The path of the address that a step navigates to, if it is on a known
origin. -/
def navigatedPath? (text : String) (ctx : Context) : Option String := do
  let target := String.ofList (← navigationTarget? text.toList)
  if looksAbsolute target then (rebased? ctx target).map (·.1) else none

/-- The source of a step with the key of each variable in its place. -/
def keyedText (source : StepSource) : String :=
  String.ofList (Placeholder.replace (fun name => "AUTOQA_".toList ++ name) source.text.toList)

def plainComment (text : String) (ctx : Context) : String :=
  match navigatedPath? text ctx with
  | some path => "Navigate to " ++ path
  | none => text

def comment (text : String) (ctx : Context) : String :=
  Text.flattenLine <|
    match ctx.source with
    | some source => if source.vars.isEmpty then plainComment text ctx else keyedText source
    | none => plainComment text ctx

end TraceExport.Replay
