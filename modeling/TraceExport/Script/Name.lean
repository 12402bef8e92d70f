import TraceExport.Spec.Placeholder
import TraceExport.Text.Lowercase
import TraceExport.Text.Phrase
import TraceExport.Trace.Record

/-!
Names of the generated script. Names are made from what describes an element,
from the text that is looked for, or from the variables of a specification. All
of them are written in ASCII, and none is a reserved word.
-/

namespace TraceExport.Script

open Text

/-- The names that every script binds itself. -/
def fileBindings : List String :=
  ["test", "expect", "page", "baseUrl", "loginBaseUrl", "loadEnvFiles", "getEnvVar"]

def isFileBinding (name : String) : Bool := fileBindings.contains name

/-- Words of JavaScript, and globals, that cannot be bound. -/
def reservedWords : List String :=
  ["arguments", "await", "break", "case", "catch", "class", "const", "continue", "debugger",
    "default", "delete", "do", "else", "enum", "eval", "export", "extends", "false", "finally",
    "for", "function", "if", "implements", "import", "in", "instanceof", "interface", "let",
    "new", "null", "package", "private", "protected", "public", "return", "static", "super",
    "switch", "this", "throw", "true", "try", "typeof", "undefined", "var", "void", "while",
    "with", "yield"]

def isReserved (name : String) : Bool := reservedWords.contains name

def isWordChar (c : Char) : Bool := c.isAlphanum || isHan c

/-- Runs the words of a text together, each with a capital; `start` tells whether
a word starts here. -/
def joinWords (start : Bool) : List Char → List Char
  | [] => []
  | c :: s =>
    if isWordChar c then (if start then c.toUpper else c) :: joinWords false s
    else joinWords true s

/-- The words of a text in camel case. The first letter is small, and every
letter inside a word is kept. -/
def camelCase (s : List Char) : List Char :=
  match s.dropWhile (!isWordChar ·) with
  | [] => []
  | c :: s => c.toLower :: joinWords false s

/-- An identifier from the ASCII letters and digits of a text, or `fallback` when
there are none. -/
def identifier (s : List Char) (fallback : String) : String :=
  match s.filter Char.isAlphanum with
  | [] => fallback
  | c :: s =>
    let name := if c.isDigit then "text" ++ String.ofList (c :: s) else String.ofList (c :: s)
    if isReserved name then name ++ "_" else name

/-- Endings of test ids that say what kind of element it is. -/
def testIdEndings : List String := ["-input", "-button", "-btn", "-field"]

/-- A test id in lower case without its endings. -/
def stripTestId (s : List Char) : List Char :=
  testIdEndings.foldl (fun s ending => (dropSuffix? ending.toList s).getD s) (lower s)

/-- Openings of prompts that say nothing about the element. -/
def promptOpenings : List Phrase :=
  [.exact "请输入".toList, .exact "输入".toList, .exact "请".toList,
    .all [.anyCase "input".toList, .blanks], .all [.anyCase "enter".toList, .blanks],
    .all [.anyCase "your".toList, .blanks]]

def stripPrompt (s : List Char) : List Char :=
  promptOpenings.foldl (fun s opening => opening.strip s) s

/-- A prompt in camel case, without its openings if something is left then. -/
def promptName (s : List Char) : List Char :=
  match camelCase (stripPrompt s) with
  | [] => camelCase s
  | name => name

/-- A description without the blanks around it, if anything is left. -/
def described? (value : Option String) : Option (List Char) :=
  match value.map fun s => trim s.toList with
  | none | some [] => none
  | some s => some s

/-- What an element may be named after, the most stable description first. -/
def elementDescriptions (f : Trace.Fingerprint) : List (List Char) :=
  ((described? f.testId).map fun s => camelCase (stripTestId s)).toList ++
    ((described? f.placeholder).map promptName).toList ++
    ((described? f.textSnippet).map camelCase).toList ++
    ((described? f.id).map camelCase).toList ++
    [(described? f.role).getD [] ++ (described? f.tagName).getD []]

/-- A name for an element. A description that leaves no identifier gives way to
the next one. -/
def elementName (f : Trace.Fingerprint) : String :=
  (((elementDescriptions f).map fun s => identifier s "").find? (· != "")).getD "element"

def textName (text : String) : String := identifier (camelCase text.toList) "text"

def variablesName (vars : List String) : String :=
  let words := lower (join [' '] (vars.map String.toList))
  identifier (camelCase words) "value" ++ "Text"

def variableName (var : String) : String :=
  if var = Spec.Placeholder.baseUrl then "baseUrl"
  else if var = Spec.Placeholder.loginBaseUrl then "loginBaseUrl"
  else
    let letters := var.toList.map Char.toLower
    let name := match letters with
      | c :: s => if c.isDigit then String.ofList ('_' :: c :: s) else String.ofList (c :: s)
      | [] => ""
    if isReserved name || isFileBinding name then name ++ "_" else name

end TraceExport.Script
