import TraceExport.Text.Joining

/-!
The width of a text on a terminal, in columns. A character takes one column, or
two if it is wide, or none if it is a mark on another; but one that joins those
behind it takes what the sign they make is wider for it, and one in front of a
variation selector takes the width of the form that is selected.
-/

namespace TraceExport.Text

/-- The columns of a character that joins none behind it, and what it is to the
character in front. -/
def alone (c : Char) : Join :=
  let n := c.toNat
  if n ≤ 0xA0 then (1, if c == '\n' then .lineFeed else .plain)
  else if inRuns zeroWidthRuns n then (0, .plain)
  else if n = 0x17D8 then (3, .plain)
  else if isFlagHalf n then (1, .flagHalf)
  else if isSkinTone n then (2, .skinTone)
  else if isEmoji n then (2, .emoji)
  else if inRuns wideRuns n then (2, .plain)
  else
    match Letter.of? n with
    | some l => (1, .letter l false)
    | none => (1, .plain)

/-- The marks that select a form of the character in front of them. -/
inductive Selector where
  | emoji
  | text
  /-- A quotation mark of two columns. -/
  | wideQuote
deriving DecidableEq, Repr

def Selector.of? (n : Nat) : Option Selector :=
  if n = 0xFE0F then some .emoji
  else if n = 0xFE0E then some .text
  else if n = 0xFE01 then some .wideQuote
  else none

def isCurlyQuote (n : Nat) : Bool := inRuns [(0x2018, 0x2019), (0x201C, 0x201D)] n

/-- The width of a form that is selected, if the character has it. -/
def Selector.select? (n : Nat) (follower : Follower) : Selector → Option Join
  | .emoji =>
    if inRuns selectableRuns n then
      some (if follower = .joinedEmoji ∨ follower = .joinedKeycap then 0 else 2, .emoji)
    else none
  | .text => if inRuns textFormRuns n then some (1, .plain) else none
  | .wideQuote => if isCurlyQuote n then some (2, .plain) else none

/-- What stands behind a place, a selector apart, which comes first. -/
structure Behind where
  selector : Option Selector
  follower : Follower
deriving DecidableEq, Repr

namespace Behind

def nothing : Behind := ⟨none, .plain⟩

/-- What a selector makes of its followers: letters other than the Kirat vowels
show through it, and a joined emoji through the one that its base has to have. -/
def select (selector : Selector) (follower : Follower) : Behind :=
  match follower with
  | .letter l _ => ⟨some selector, if l = .kiratE ∨ l = .kiratAi then .plain else follower⟩
  | .joinedEmoji | .joinedKeycap => ⟨some selector, if selector = .emoji then follower else .plain⟩
  | _ => ⟨some selector, .plain⟩

/-- The follower once its selector has found nothing to select. -/
def released (after : Behind) : Follower :=
  match after.selector, after.follower with
  | none, follower => follower
  | some _, .letter l joined => .letter l joined
  | some _, _ => .plain

/-- The columns that a character adds, and what is then behind the one in front. -/
def step (c : Char) (after : Behind) : Int × Behind :=
  match after.selector.bind (Selector.select? c.toNat after.follower) with
  | some (columns, follower) => (columns, ⟨none, follower⟩)
  | none =>
    match Selector.of? c.toNat with
    | some selector => (0, select selector after.released)
    | none =>
      let (columns, follower) := (after.released.join? c.toNat).getD (alone c)
      (columns, ⟨none, follower⟩)

/-- The columns that a text takes, and what it is to a character in front of it. -/
def measure (s : List Char) : Int × Behind :=
  s.foldr (fun c r => ((step c r.2).1 + r.1, (step c r.2).2)) (0, nothing)

@[simp] theorem measure_nil : measure [] = (0, nothing) := rfl

@[simp] theorem measure_cons (c : Char) (s : List Char) :
    measure (c :: s) =
      ((step c (measure s).2).1 + (measure s).1, (step c (measure s).2).2) := rfl

end Behind

def width (s : List Char) : Nat := (Behind.measure s).1.toNat

end TraceExport.Text
