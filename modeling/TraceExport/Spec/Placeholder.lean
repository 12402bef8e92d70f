import TraceExport.Text.Basic

/-!
Placeholders: variables in the text of a specification, a name in doubled
braces such as `{{USERNAME}}`. `read?` recognises one at the start of a text, and
everything else that is said about placeholders rests on it: `pieces` cuts a
text at all of them.
-/

namespace TraceExport.Spec.Placeholder

def isNameChar (c : Char) : Bool := c.isUpper || c.isDigit || c == '_'

def isName (s : String) : Bool := s != "" && s.toList.all isNameChar

def opening : List Char := ['\x7b', '\x7b']

def closing : List Char := ['\x7d', '\x7d']

/-- Reads a placeholder at the start of a text: its name, and what follows. -/
def read? (s : List Char) : Option (List Char × List Char) :=
  match Text.dropPrefix? opening s with
  | none => none
  | some inside =>
    let s := Text.trimStart inside
    let name := s.takeWhile isNameChar
    if name.isEmpty then none
    else
      (Text.dropPrefix? closing (Text.trimStart (s.dropWhile isNameChar))).map (name, ·)

theorem length_dropWhile_le {α : Type} (p : α → Bool) (s : List α) :
    (s.dropWhile p).length ≤ s.length :=
  (List.dropWhile_suffix p).length_le

theorem length_rest_lt {s name rest : List Char} (h : read? s = some (name, rest)) :
    rest.length < s.length := by
  unfold read? at h
  split at h
  · simp at h
  · rename_i inside hs
    simp only at h
    split at h
    · simp at h
    · simp only [Option.map_eq_some_iff, Prod.mk.injEq] at h
      obtain ⟨r, hr, -, rfl⟩ := h
      have h₁ := congrArg List.length (Text.dropPrefix?_eq_some.1 hs)
      have h₂ := congrArg List.length (Text.dropPrefix?_eq_some.1 hr)
      have h₃ := length_dropWhile_le Text.isBlank
        (List.dropWhile isNameChar (Text.trimStart inside))
      have h₄ := length_dropWhile_le isNameChar (Text.trimStart inside)
      have h₅ := length_dropWhile_le Text.isBlank inside
      simp only [Text.trimStart, opening, closing, List.length_append, List.length_cons] at *
      omega

/-- A stretch of a text: a placeholder, or characters outside all of them. -/
inductive Piece where
  | plain (text : List Char)
  | placeholder (name : List Char)
deriving DecidableEq, Repr

def consPlain (c : Char) : List Piece → List Piece
  | .plain text :: rest => .plain (c :: text) :: rest
  | rest => .plain [c] :: rest

/-- Cuts a text at its placeholders, from left to right. -/
def pieces (s : List Char) : List Piece :=
  match s with
  | [] => []
  | c :: rest =>
    match h : read? (c :: rest) with
    | some (name, after) =>
      have := length_rest_lt h
      .placeholder name :: pieces after
    | none => consPlain c (pieces rest)
termination_by s.length
decreasing_by
  · assumption
  · exact Nat.lt_succ_self _

def Piece.name? : Piece → Option String
  | .plain _ => none
  | .placeholder name => some (String.ofList name)

/-- The names of all placeholders of a text, as often as they occur. -/
def occurrences (s : List Char) : List String := (pieces s).filterMap Piece.name?

/-- The variables of a text, each once, in the order of their first places. -/
def vars (text : String) : List String := (occurrences text.toList).eraseDups

/-- The text with each placeholder replaced by what `shown` says of its name. -/
def replace (shown : List Char → List Char) (s : List Char) : List Char :=
  (pieces s).flatMap fun
    | .plain text => text
    | .placeholder name => shown name

/-- The variable that a text starts with, leading blanks aside, and what
follows its placeholder. -/
def leading? (s : List Char) : Option (List Char × List Char) := read? (Text.trimStart s)

/-- The variable of a text that is one placeholder with nothing but blanks
around it. -/
def sole? (s : List Char) : Option (List Char) :=
  match leading? s with
  | some (name, rest) => if rest.all Text.isBlank then some name else none
  | none => none

def baseUrl : String := "BASE_URL"

def loginBaseUrl : String := "LOGIN_BASE_URL"

/-- Whether a variable holds one of the two addresses. -/
def isAddress (name : String) : Bool := name == baseUrl || name == loginBaseUrl

/-- What follows the placeholder of a given variable, where a text starts with
it, leading blanks aside. -/
def afterVariable? (var : String) (s : List Char) : Option (List Char) := do
  let inside ← Text.dropPrefix? opening (Text.trimStart s)
  let rest ← Text.dropPrefix? var.toList (Text.trimStart inside)
  Text.dropPrefix? closing (Text.trimStart rest)

def startsWithAddress (s : List Char) : Bool :=
  match leading? s with
  | some (name, _) => isAddress (String.ofList name)
  | none => false

end TraceExport.Spec.Placeholder
