import TraceExport.Text.Class
import TraceExport.Text.Basic

/-!
Renaming in the text of a script. Occurrences of a name as a whole word are
replaced; string, template and regular expression literals and line comments are
copied. Whether a slash opens a regular expression is told from the last
character before it that is not blank.
-/

namespace TraceExport.Script

open Text

/-- Cuts a text after the quotation mark that closes a literal. -/
def splitQuoted (mark : Char) : List Char → List Char × List Char
  | [] => ([], [])
  | ['\\'] => (['\\'], [])
  | '\\' :: c :: s => ('\\' :: c :: (splitQuoted mark s).1, (splitQuoted mark s).2)
  | c :: s =>
    if c = mark then ([c], s) else (c :: (splitQuoted mark s).1, (splitQuoted mark s).2)

/-- Cuts a text after a regular expression and its flags, or before the line
break that ends it. `inClass` tells whether a character class is open. -/
def splitRegex (inClass : Bool) : List Char → List Char × List Char
  | [] => ([], [])
  | ['\\'] => (['\\'], [])
  | '\\' :: c :: s => ('\\' :: c :: (splitRegex inClass s).1, (splitRegex inClass s).2)
  | c :: s =>
    if c = '\n' then ([], c :: s)
    else if c = '[' then (c :: (splitRegex true s).1, (splitRegex true s).2)
    else if c = ']' then (c :: (splitRegex false s).1, (splitRegex false s).2)
    else if c = '/' ∧ ¬ inClass then (c :: s.takeWhile Char.isAlpha, s.dropWhile Char.isAlpha)
    else (c :: (splitRegex inClass s).1, (splitRegex inClass s).2)

def splitComment (s : List Char) : List Char × List Char :=
  (s.takeWhile (· != '\n'), s.dropWhile (· != '\n'))

theorem splitQuoted_append (mark : Char) (s : List Char) :
    (splitQuoted mark s).1 ++ (splitQuoted mark s).2 = s := by
  fun_induction splitQuoted mark s <;> simp_all

theorem splitRegex_append (inClass : Bool) (s : List Char) :
    (splitRegex inClass s).1 ++ (splitRegex inClass s).2 = s := by
  fun_induction splitRegex inClass s <;> simp_all

theorem length_le_of_append {s t u : List Char} (h : t ++ u = s) : u.length ≤ s.length := by
  simp [← h]

theorem length_splitQuoted_le (mark : Char) (s : List Char) :
    (splitQuoted mark s).2.length ≤ s.length :=
  length_le_of_append (splitQuoted_append mark s)

theorem length_splitRegex_le (inClass : Bool) (s : List Char) :
    (splitRegex inClass s).2.length ≤ s.length :=
  length_le_of_append (splitRegex_append inClass s)

theorem length_splitComment_le (s : List Char) : (splitComment s).2.length ≤ s.length :=
  length_le_of_append (List.takeWhile_append_dropWhile)

def isQuote (c : Char) : Bool := c == '\'' || c == '"' || c == '\x60'

/-- Whether a slash after this character opens a regular expression. -/
def opensRegex : Option Char → Bool
  | none => true
  | some c => "(,=:[!&|?\x7b\x7d;+-*%<>~^".toList.contains c

/-- Whether a word may begin or end beside this character. -/
def endsWord : Option Char → Bool
  | none => true
  | some c => !isIdentChar c

/-- What follows a name at the start of a text, where it stands as a word. -/
def afterName? (name : List Char) (before : Option Char) (s : List Char) : Option (List Char) :=
  if endsWord before && !name.isEmpty then
    (dropPrefix? name s).filter fun rest => endsWord rest.head?
  else none

theorem length_afterName_lt {name s rest : List Char} {before : Option Char}
    (h : afterName? name before s = some rest) : rest.length < s.length := by
  unfold afterName? at h
  split at h
  · rename_i hn
    obtain ⟨hd, -⟩ := Option.filter_eq_some_iff.1 h
    have := congrArg List.length (dropPrefix?_eq_some.1 hd)
    cases name with
    | nil => simp at hn
    | cons c cs => simp at this; omega
  · simp at h

/-- Renames in a text. `prev` is the last character before it that counts for
slashes, and `before` is the very last one. -/
def renameFrom (old new : List Char) (prev before : Option Char) (s : List Char) : List Char :=
  match s with
  | [] => []
  | c :: rest =>
    if isQuote c then
      let literal := c :: (splitQuoted c rest).1
      literal ++ renameFrom old new (some c) literal.getLast? (splitQuoted c rest).2
    else if c = '/' ∧ rest.head? = some '/' then
      let comment := c :: (splitComment rest).1
      comment ++ renameFrom old new prev comment.getLast? (splitComment rest).2
    else if c = '/' ∧ opensRegex prev then
      let regex := c :: (splitRegex false rest).1
      regex ++ renameFrom old new (some '/') regex.getLast? (splitRegex false rest).2
    else
      match h : afterName? old before (c :: rest) with
      | some after =>
        have := length_afterName_lt h
        new ++ renameFrom old new old.getLast? old.getLast? after
      | none =>
        c :: renameFrom old new (if isBlank c then prev else some c) (some c) rest
termination_by s.length
decreasing_by
  · exact Nat.lt_succ_of_le (length_splitQuoted_le c rest)
  · exact Nat.lt_succ_of_le (length_splitComment_le rest)
  · exact Nat.lt_succ_of_le (length_splitRegex_le false rest)
  · assumption
  · exact Nat.lt_succ_self _

def rename (old new code : String) : String :=
  String.ofList (renameFrom old.toList new.toList none none code.toList)

end TraceExport.Script
