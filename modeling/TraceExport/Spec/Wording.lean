import TraceExport.Spec.Placeholder
import TraceExport.Text.Phrase

/-!
What the words of a step say: where it navigates to, which text it expects, and
which address it mentions. English and Chinese wordings are understood.
-/

namespace TraceExport.Spec

open Text Text.Phrase

/-- The words of a phrase in any case, with blanks after each. -/
def words (list : List String) : Phrase :=
  all (list.map fun word => all [anyCase word.toList, blanks])

/-- One of some English words, in any case. -/
def anyWord (list : List String) : Phrase := oneOf (list.map fun word => anyCase word.toList)

/-- One of some words as they stand. -/
def anyOf (list : List String) : Phrase := oneOf (list.map fun word => exact word.toList)

def token : Phrase := captured (run isVisible 1)

def navigations : List Phrase :=
  [all [words ["navigate", "to"], token],
    all [exact "导航到".toList, maybeBlanks, token],
    all [words ["go", "to"], token]]

def navigationTarget? (s : List Char) : Option (List Char) :=
  navigations.findSome? (·.kept? (trimStart s))

/-- A text between two marks, which is kept and not empty. -/
def quotedBy (first last : Char) : Phrase :=
  all [exact [first], captured (run (· != last) 1), exact [last]]

def quoted? (s : List Char) : Option (List Char) :=
  (oneOf [quotedBy '"' '"', quotedBy '\'' '\'', quotedBy '“' '”', quotedBy '「' '」']).find? s

def isUnquoted (c : Char) : Bool := c != '"' && c != '\''

def maybeMark : Phrase := optional (oneOf [exact ['"'], exact ['\'']])

def englishCheck : Phrase :=
  all [anyWord ["verify", "assert"], blanks, optional (words ["that"]), optional (words ["the"])]

def elementChecks : List Phrase :=
  [all [englishCheck, maybeMark, run isUnquoted 1, maybeMark, blanks,
      anyWord ["button", "link", "element", "icon"], blanks, words ["is"],
      anyCase "visible".toList],
    all [exact "验证".toList, maybeBlanks, maybeMark, run isUnquoted 1, maybeMark, maybeBlanks,
      anyOf ["按钮", "链接", "元素", "图标"], maybeBlanks, anyOf ["可见", "显示"]]]

/-- An expected text, which is kept, in quotation marks or without. -/
def expectedText : Phrase := all [maybeMark, captured (run isUnquoted 1), maybeMark]

/-- A Chinese check for a text on the page. -/
def chineseTextCheck (verb : String) : Phrase :=
  all [exact verb.toList, maybeBlanks, optional (exact "页面".toList), anyOf ["显示", "包含"],
    maybeBlanks, expectedText]

def textChecks : List Phrase :=
  [all [englishCheck, words ["page"], anyWord ["shows", "contains", "displays"], blanks,
      optional (words ["text"]), expectedText],
    chineseTextCheck "验证", chineseTextCheck "断言"]

/-- The text that a check expects on the page. What the page is said to show
comes before a quoted text; a check for an element expects no text. -/
def assertedText? (s : List Char) : Option (List Char) :=
  let s := trim s
  if elementChecks.any (·.opens s) then none
  else
    match ((textChecks.findSome? (·.kept? s)).map trim).filter (!·.isEmpty) with
    | some value => some value
    | none => (quoted? s).map trim

def isMark (c : Char) : Bool := ['"', '\'', '“', '”', '「', '」'].contains c

/-- Characters of an address in front of its first placeholder. -/
def isAddressChar (c : Char) : Bool := isVisible c && c != '\x7b' && !isMark c

/-- Characters of an address after its first placeholder. -/
def isTailChar (c : Char) : Bool := isVisible c && !isMark c && c != ',' && c != ';'

/-- What follows the part of an address in front of its first placeholder: a
scheme and host, a slash and what follows it, or nothing. -/
def afterLead (s : List Char) : List Char :=
  let starts := ["https://", "http://", "/"]
  match starts.findSome? fun start => dropPrefix? start.toList s with
  | some rest => rest.dropWhile isAddressChar
  | none => s

/-- What follows an address with a placeholder at the start of a text. -/
def afterAddress? (s : List Char) : Option (List Char) :=
  (Placeholder.read? (afterLead s)).map fun r => r.2.dropWhile isTailChar

/-- Punctuation that belongs to the sentence and not to the address. -/
def isStop (c : Char) : Bool := c == '.' || c == ')' || c == '。'

/-- The first address of a text that has a placeholder in it. -/
def addressToken? : List Char → Option (List Char)
  | [] => none
  | c :: s =>
    match afterAddress? (c :: s) with
    | some rest => some (trimEndOf isStop ((c :: s).take ((c :: s).length - rest.length)))
    | none => addressToken? s

end TraceExport.Spec
