import TraceExport.Text.Class

/-!
Phrases: small patterns for the wordings that steps are written in. A phrase
is tried at the start of a text and yields every way to read it, the preferred
way first: an alternative prefers its first branch, an optional part prefers
to be present, and a run prefers to be long.
-/

namespace TraceExport.Text

inductive Phrase where
  | exact (word : List Char)
  /-- These letters, in either case. -/
  | anyCase (word : List Char)
  /-- At least `least` characters of a class. -/
  | run (p : Char → Bool) (least : Nat)
  | atEnd
  | optional (p : Phrase)
  | either (p q : Phrase)
  | followedBy (p q : Phrase)
  /-- Reads `p` and keeps what it read. -/
  | captured (p : Phrase)

/-- One way to read a phrase: the text kept by its capture, and what follows. -/
structure Reading where
  kept : Option (List Char)
  rest : List Char

namespace Phrase

def all : List Phrase → Phrase
  | [] => .exact []
  | [p] => p
  | p :: ps => .followedBy p (all ps)

def oneOf : List Phrase → Phrase
  | [] => .run (fun _ => false) 1
  | [p] => p
  | p :: ps => .either p (oneOf ps)

def blanks : Phrase := .run isBlank 1

def maybeBlanks : Phrase := .run isBlank 0

/-- The rest of `s` after letters that agree with `word` up to case. -/
def dropLetters? : (word s : List Char) → Option (List Char)
  | [], s => some s
  | _ :: _, [] => none
  | w :: word, c :: s => if sameLetter w c then dropLetters? word s else none

/-- What may follow a run: the texts left after `longest`, `longest - 1`, …
down to `least` characters. -/
def runRests (s : List Char) (least longest : Nat) : List (List Char) :=
  ((List.range (longest + 1)).filter (least ≤ ·)).reverse.map s.drop

/-- Every way to read the phrase at the start of a text, preferred ways first. -/
def readings : Phrase → List Char → List Reading
  | .exact word, s =>
    if word.isPrefixOf s then [⟨none, s.drop word.length⟩] else []
  | .anyCase word, s => (dropLetters? word s).toList.map (⟨none, ·⟩)
  | .run p least, s => (runRests s least (s.takeWhile p).length).map (⟨none, ·⟩)
  | .atEnd, s => if s.isEmpty then [⟨none, s⟩] else []
  | .optional p, s => p.readings s ++ [⟨none, s⟩]
  | .either p q, s => p.readings s ++ q.readings s
  | .followedBy p q, s =>
    (p.readings s).flatMap fun first =>
      (q.readings first.rest).map fun second => ⟨second.kept.or first.kept, second.rest⟩
  | .captured p, s =>
    (p.readings s).map fun r => ⟨some (s.take (s.length - r.rest.length)), r.rest⟩

def opens (p : Phrase) (s : List Char) : Bool := !(p.readings s).isEmpty

/-- What the preferred reading at the start of the text keeps. -/
def kept? (p : Phrase) (s : List Char) : Option (List Char) :=
  (p.readings s).head?.bind (·.kept)

/-- What is kept by the first place of the text where the phrase can be read. -/
def find? (p : Phrase) : List Char → Option (List Char)
  | [] => p.kept? []
  | c :: s =>
    match p.readings (c :: s) with
    | r :: _ => r.kept
    | [] => find? p s

/-- The text after the phrase, or the text itself where it cannot be read. -/
def strip (p : Phrase) (s : List Char) : List Char :=
  match p.readings s with
  | r :: _ => r.rest
  | [] => s

end Phrase

end TraceExport.Text
