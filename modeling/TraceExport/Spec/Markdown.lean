import TraceExport.Spec.Basic
import TraceExport.Spec.Placeholder
import TraceExport.Text.Lowercase

/-!
Specifications written in Markdown: a list of preconditions and a numbered list
of steps, each under a heading. Placeholders are left as they are. The same
lines of the step list give the steps, in `ofMarkdown`, and the variables of
each step, in `stepSources`.
-/

namespace TraceExport.Spec

/-- The title of a heading of the second level or below. -/
def headingTitle? (line : List Char) : Option (List Char) :=
  (Text.dropPrefix? ['#', '#'] (Text.trimStart line)).map fun rest =>
    Text.trim (rest.dropWhile (· == '#'))

/-- Whether a line is a heading whose title starts with `name`; the title is
lower-cased first. -/
def opensSection (name : List Char) (line : List Char) : Bool :=
  match headingTitle? line with
  | some title => Text.startsWith name (Text.lower title)
  | none => false

/-- The lines below the first heading with this name, up to the next heading. -/
def sectionLines? (name : List Char) (lines : List (List Char)) : Option (List (List Char)) :=
  match lines.dropWhile (!opensSection name ·) with
  | [] => none
  | _ :: body => some (body.takeWhile fun line => (headingTitle? line).isNone)

def section? (text name : String) : Option String :=
  (sectionLines? name.toList (Text.physicalLines text.toList)).map fun body =>
    String.ofList body.flatten

def sectionItems (text name : String) : List (List Char) :=
  match section? text name with
  | some body => Text.lines body.toList
  | none => []

/-- The text of an item after its marker: a blank, and something after it. -/
def itemText? : List Char → Option String
  | c :: rest =>
    if Text.isInlineBlank c && !rest.isEmpty then some (String.ofList (Text.trim rest)) else none
  | [] => none

/-- The number written by some digits, if it has no more than 32 bits. -/
def stepNumber? (digits : List Char) : Option Nat :=
  let n := digits.foldl (fun n c => n * 10 + (c.toNat - '0'.toNat)) 0
  if digits.isEmpty || n ≥ Nat.pow 2 32 then none else some n

/-- The number and the text of an item of a numbered list, written `1. text` or
`1) text`. -/
def numberedItem? (line : List Char) : Option (Nat × String) :=
  let s := line.dropWhile Text.isInlineBlank
  match s.dropWhile Char.isDigit with
  | c :: rest =>
    if c == '.' || c == ')' then
      match stepNumber? (s.takeWhile Char.isDigit), itemText? rest with
      | some index, some text => some (index, text)
      | _, _ => none
    else none
  | [] => none

def bulletItem? (line : List Char) : Option String :=
  match line.dropWhile Text.isInlineBlank with
  | c :: rest => if c == '-' || c == '*' || c == '+' then itemText? rest else none
  | [] => none

/-- Words that open a step which checks something. -/
def assertionWords : List String :=
  ["verify", "assert", "expect", "check", "验证", "断言", "检查"]

def isAssertion (text : String) : Bool :=
  let s := Text.lower (Text.trimStart text.toList)
  assertionWords.any fun word => Text.startsWith word.toList s

def Step.ofItem (item : Nat × String) : Step :=
  ⟨item.1, item.2, if isAssertion item.2 then .assertion else .action⟩

def stepItems (text : String) : List (Nat × String) :=
  (sectionItems text "steps").filterMap numberedItem?

def ofMarkdown (text : String) : Spec where
  preconditions := (sectionItems text "preconditions").filterMap bulletItem?
  steps := (stepItems text).map Step.ofItem

/-- The text of a step before its variables got values. -/
structure StepSource where
  /-- The variables of the text, each once. -/
  vars : List String
  text : String
deriving DecidableEq, Repr

namespace StepSource

def ofText (text : String) : StepSource := ⟨Placeholder.vars text, text⟩

def valueVar? (s : StepSource) : Option String := s.vars.find? (!Placeholder.isAddress ·)

end StepSource

/-- The sources of steps by step number, in ascending order. -/
abbrev StepSources := List (Nat × StepSource)

namespace StepSources

def get? (sources : StepSources) (index : Nat) : Option StepSource :=
  (sources.find? (·.1 == index)).map (·.2)

/-- Sets the source of a step; an earlier one gives way. -/
def put (index : Nat) (source : StepSource) : StepSources → StepSources
  | [] => [(index, source)]
  | (i, s) :: rest =>
    if index < i then (index, source) :: (i, s) :: rest
    else if index = i then (index, source) :: rest
    else (i, s) :: put index source rest

def addItem (sources : StepSources) (item : Nat × String) : StepSources :=
  let source := StepSource.ofText item.2
  if source.vars.isEmpty then sources else put item.1 source sources

end StepSources

/-- The sources of the steps that have variables. Of steps with one number the
last counts. -/
def stepSources (text : String) : StepSources :=
  (stepItems text).foldl StepSources.addItem []

end TraceExport.Spec
