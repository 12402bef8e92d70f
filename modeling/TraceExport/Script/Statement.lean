import TraceExport.Script.Expr

/-!
Statements of the generated script, one for each recorded action. A statement
is written on one or more lines, indented by two blanks.
-/

namespace TraceExport.Script

inductive Statement where
  | goto (target : Expr)
  | click (locator : String)
  /-- Types a value; the note says why it is empty. -/
  | fill (locator : String) (value : Expr) (note : Option String)
  | selectOption (locator label : String)
  | expectText (text : Expr)
  /-- Expects one of several places of a text, under a name. -/
  | expectNthText (name : String) (text : Expr) (nth : Nat)
  /-- Expects exactly one element, under a name. -/
  | expectElement (name locator : String)
  | pause (milliseconds : Nat)
  | todo (what : String)
  | nothing
deriving DecidableEq, Repr

namespace Statement

def declare (name value : String) : String := "  const " ++ name ++ " = " ++ value ++ ";"

def expectation (what check : String) : String := "  await expect(" ++ what ++ ")." ++ check ++ ";"

def textLocator (text : Expr) : String := "page.getByText(" ++ text.text ++ ")"

def code : Statement → String
  | goto target => "  await page.goto(" ++ target.text ++ ");"
  | click locator => "  await " ++ locator ++ ".click();"
  | fill locator value note =>
    "  await " ++ locator ++ ".fill(" ++ value.text ++ ");" ++
      (match note with
        | some note => " // TODO: " ++ note
        | none => "")
  | selectOption locator label =>
    "  await " ++ locator ++ ".selectOption(\x7b label: " ++ quoted label ++ " \x7d);"
  | expectText text => expectation (textLocator text ++ ".first()") "toBeVisible()"
  | expectNthText name text nth =>
    declare name (textLocator text) ++ "\n" ++
      expectation (name ++ ".nth(" ++ toString nth ++ ")") "toBeVisible()"
  | expectElement name locator =>
    declare name locator ++ "\n" ++ expectation name "toHaveCount(1)" ++ "\n" ++
      expectation name "toBeVisible()"
  | pause milliseconds => "  await page.waitForTimeout(" ++ toString milliseconds ++ ");"
  | todo what => "  // TODO: " ++ what
  | nothing => ""

def expr? : Statement → Option Expr
  | goto e | fill _ e _ | expectText e | expectNthText _ e _ => some e
  | _ => none

def needs (s : Statement) : Needs := (s.expr?.map Expr.needs).getD Needs.none

end Statement

end TraceExport.Script
