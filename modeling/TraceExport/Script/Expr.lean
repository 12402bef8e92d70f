import TraceExport.Script.Literal
import TraceExport.Script.Name
import TraceExport.Script.Needs

/-!
Expressions of the generated script. They refer to variables of the
specification by name; `text` writes the bindings of these variables, and `vars`
lists the variables, so that what an expression needs is read off the expression
itself.
-/

namespace TraceExport.Script

open Spec (Placeholder.Piece)

inductive Expr where
  | binding (var : String)
  | literal (value : String)
  | template (pieces : List Spec.Placeholder.Piece)
  /-- A path on the address that a variable holds. -/
  | onAddress (path : String) (var : String)
deriving DecidableEq, Repr

namespace Expr

/-- How a stretch of a text is written inside backquotes. -/
def pieceText : Spec.Placeholder.Piece → List Char
  | .plain text => escapeTemplate text
  | .placeholder name =>
    '$' :: '\x7b' :: (variableName (String.ofList name)).toList ++ ['\x7d']

def text : Expr → String
  | binding var => variableName var
  | literal value => quoted value
  | template pieces => String.ofList (backquote :: pieces.flatMap pieceText ++ [backquote])
  | onAddress path var => "new URL(" ++ quoted path ++ ", " ++ variableName var ++ ").toString()"

/-- The variables that the expression refers to, each once. -/
def vars : Expr → List String
  | binding var => [var]
  | literal _ => []
  | template pieces => (pieces.filterMap Spec.Placeholder.Piece.name?).eraseDups
  | onAddress _ var => [var]

def needs (e : Expr) : Needs := Needs.ofVars e.vars

/-- The expression for a text that has variables in it. A text that is only a
variable is its binding, and the blanks around it are dropped. -/
def ofTemplate? (raw : String) : Option Expr :=
  match Spec.Placeholder.sole? raw.toList with
  | some name => some (binding (String.ofList name))
  | none =>
    if (Spec.Placeholder.vars raw).isEmpty then none
    else some (template (Spec.Placeholder.pieces raw.toList))

theorem ofTemplate?_isSome {raw : String} (h : Spec.Placeholder.vars raw ≠ []) :
    (ofTemplate? raw).isSome := by
  unfold ofTemplate?
  split
  · rfl
  · simp [h]

end Expr

end TraceExport.Script
