import TraceExport.Text.Class

/-!
Cutting and joining of texts, on lists of characters. Each function loses or
adds only what its name says, and the equations that the rest of the library
reasons with stand beside it.
-/

namespace TraceExport.Text

/-- The rest of `s` after `lead`, if `s` starts with it. -/
def dropPrefix? : (lead s : List Char) → Option (List Char)
  | [], s => some s
  | _ :: _, [] => none
  | p :: lead, c :: s => if p = c then dropPrefix? lead s else none

theorem dropPrefix?_eq_some {lead s rest : List Char} :
    dropPrefix? lead s = some rest ↔ s = lead ++ rest := by
  induction lead generalizing s with
  | nil => simp [dropPrefix?]
  | cons p lead ih =>
      cases s with
      | nil => simp [dropPrefix?]
      | cons c s =>
          by_cases h : p = c
          · simp [dropPrefix?, h, ih]
          · simp [dropPrefix?, h, Ne.symm h]

@[simp] theorem dropPrefix?_append (lead rest : List Char) :
    dropPrefix? lead (lead ++ rest) = some rest :=
  dropPrefix?_eq_some.2 rfl

theorem length_dropPrefix?_lt {p : Char} {lead s rest : List Char}
    (h : dropPrefix? (p :: lead) s = some rest) : rest.length < s.length := by
  have := congrArg List.length (dropPrefix?_eq_some.1 h)
  simp at this
  omega

def startsWith (lead s : List Char) : Bool := (dropPrefix? lead s).isSome

/-- The part of `s` before `tail`, if `s` ends with it. -/
def dropSuffix? (tail s : List Char) : Option (List Char) :=
  (dropPrefix? tail.reverse s.reverse).map List.reverse

theorem dropSuffix?_eq_some {tail s front : List Char} :
    dropSuffix? tail s = some front ↔ s = front ++ tail := by
  simp only [dropSuffix?, Option.map_eq_some_iff, dropPrefix?_eq_some]
  constructor
  · rintro ⟨r, h, rfl⟩
    have := congrArg List.reverse h
    simpa using this
  · rintro rfl
    exact ⟨front.reverse, by simp, by simp⟩

def endsWith (tail s : List Char) : Bool := (dropSuffix? tail s).isSome

/-- Removes the longest end of `s` that lies in a class. -/
def trimEndOf (p : Char → Bool) (s : List Char) : List Char :=
  (s.reverse.dropWhile p).reverse

theorem trimEndOf_isPrefix (p : Char → Bool) (s : List Char) : trimEndOf p s <+: s := by
  have hsuffix := List.dropWhile_suffix (l := s.reverse) p
  exact List.reverse_suffix.1 (by simpa [trimEndOf] using hsuffix)

theorem trimEndOf_append {p : Char → Bool} {c : Char} (hc : p c = false) (s t : List Char) :
    trimEndOf p (s ++ c :: t) = s ++ c :: trimEndOf p t := by
  rw [trimEndOf, trimEndOf, List.reverse_append, List.reverse_cons, List.append_assoc,
    List.dropWhile_append]
  split
  · simp_all
  · simp

def trimStart (s : List Char) : List Char := s.dropWhile isBlank

def trimEnd (s : List Char) : List Char := trimEndOf isBlank s

def trim (s : List Char) : List Char := trimEnd (trimStart s)

/-- Puts a character in front of the first piece of a split text. -/
def consFirst (c : Char) : List (List Char) → List (List Char)
  | [] => [[c]]
  | piece :: pieces => (c :: piece) :: pieces

/-- The pieces of a text between characters of a class; one more than there
are such characters. -/
def splitOn (p : Char → Bool) : List Char → List (List Char)
  | [] => [[]]
  | c :: s => if p c then [] :: splitOn p s else consFirst c (splitOn p s)

theorem splitOn_ne_nil (p : Char → Bool) (s : List Char) : splitOn p s ≠ [] := by
  induction s with
  | nil => simp [splitOn]
  | cons c s ih =>
      by_cases h : p c
      · simp [splitOn, h]
      · cases hs : splitOn p s with
        | nil => exact absurd hs ih
        | cons a l => simp [splitOn, h, hs, consFirst]

/-- The lines of a text with their line feeds; only the last may lack one. -/
def physicalLines : List Char → List (List Char)
  | [] => []
  | c :: s => if c = '\n' then [c] :: physicalLines s else consFirst c (physicalLines s)

theorem flatten_consFirst (c : Char) (pieces : List (List Char)) :
    (consFirst c pieces).flatten = c :: pieces.flatten := by
  cases pieces <;> rfl

@[simp] theorem flatten_physicalLines (s : List Char) : (physicalLines s).flatten = s := by
  induction s with
  | nil => rfl
  | cons c s ih =>
      by_cases h : c = '\n'
      · simp [physicalLines, h, ih]
      · simp [physicalLines, h, ih, flatten_consFirst]

/-- A line without its line feed, and without a carriage return in front of
that line feed. A carriage return that no line feed follows is kept. -/
def dropLineEnd (line : List Char) : List Char :=
  match dropSuffix? ['\n'] line with
  | none => line
  | some front => (dropSuffix? ['\r'] front).getD front

def lines (s : List Char) : List (List Char) := (physicalLines s).map dropLineEnd

/-- Replaces a pattern from left to right; matches do not overlap. The empty
pattern is never replaced. -/
def replaceAll (pattern new : List Char) (s : List Char) : List Char :=
  match s with
  | [] => []
  | c :: rest =>
    match pattern with
    | [] => s
    | p :: ps =>
      match h : dropPrefix? (p :: ps) (c :: rest) with
      | some after =>
        have := length_dropPrefix?_lt h
        new ++ replaceAll (p :: ps) new after
      | none => c :: replaceAll (p :: ps) new rest
termination_by s.length
decreasing_by
  · assumption
  · exact Nat.lt_succ_self _

theorem replaceAll_of_dropPrefix? {pattern new s rest : List Char} (hne : pattern ≠ [])
    (h : dropPrefix? pattern s = some rest) :
    replaceAll pattern new s = new ++ replaceAll pattern new rest := by
  obtain ⟨p, ps, rfl⟩ := List.exists_cons_of_ne_nil hne
  cases s with
  | nil => simp [dropPrefix?] at h
  | cons c s =>
      rw [replaceAll]
      split
      · rename_i after hafter
        rw [h] at hafter
        cases hafter
        rfl
      · rename_i hnone
        simp [h] at hnone

theorem replaceAll_cons {pattern new s : List Char} {c : Char} (hne : pattern ≠ [])
    (h : dropPrefix? pattern (c :: s) = none) :
    replaceAll pattern new (c :: s) = c :: replaceAll pattern new s := by
  obtain ⟨p, ps, rfl⟩ := List.exists_cons_of_ne_nil hne
  rw [replaceAll]
  split
  · rename_i hafter
    simp [h] at hafter
  · rfl

def join (separator : List Char) : List (List Char) → List Char
  | [] => []
  | [piece] => piece
  | piece :: pieces => piece ++ separator ++ join separator pieces

/-- Keeps `limit` characters and marks the cut; shorter texts are kept whole. -/
def truncate (limit : Nat) (s : String) : String :=
  if s.length ≤ limit then s
  else String.ofList (s.toList.take limit) ++ "...[truncated]"

/-- Puts a text on one line: each run of line breaks becomes one space, and
line breaks at the ends vanish. -/
def flattenLine (s : String) : String :=
  let parts := splitOn (fun c => c == '\r' || c == '\n') s.toList
  String.ofList (join [' '] (parts.filter (!·.isEmpty)))

def trimmed (s : String) : String := String.ofList (trim s.toList)

def isBlankText (s : String) : Bool := s.toList.all isBlank

end TraceExport.Text
