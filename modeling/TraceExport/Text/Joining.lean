import TraceExport.Text.Runs
import TraceExport.Text.WidthTable
import TraceExport.Text.EmojiTable

/-!
Characters that make one sign with those behind them. A text is read from its
end, and a `Follower` is what a character finds behind it, as far as the two may
join. Two kinds of signs come about in this way: ligatures of letters, and emoji
made of several characters. A join tells the columns that the character adds to
its followers, which may be fewer than none.
-/

namespace TraceExport.Text

def zeroWidthJoiner : Nat := 0x200D

/-- The letters that join one in front of them. -/
inductive Letter where
  | arabicAlef
  | hebrewLamed
  | bugineseYa
  | bugineseVowelI
  | tifinaghConsonant
  | tifinaghJoiner
  | lisuTone
  | orkhonI
  | khmerLetter
  | kiratE
  | kiratAi
deriving DecidableEq, Repr

def isArabicLam (n : Nat) : Bool :=
  inRuns [(0x644, 0x644), (0x6B5, 0x6B8), (0x76A, 0x76A), (0x8A6, 0x8A6), (0x8C7, 0x8C7)] n

def isArabicAlef (n : Nat) : Bool :=
  inRuns [(0x622, 0x623), (0x625, 0x625), (0x627, 0x627), (0x671, 0x673), (0x675, 0x675),
    (0x773, 0x774), (0x870, 0x882)] n

def isTifinaghConsonant (n : Nat) : Bool := inRuns [(0x2D31, 0x2D65), (0x2D6F, 0x2D6F)] n

def isKhmerLetter (n : Nat) : Bool :=
  inRuns [(0x1780, 0x1782), (0x1784, 0x1787), (0x1789, 0x178C), (0x178E, 0x1793),
    (0x1795, 0x1798), (0x179B, 0x179D), (0x17A0, 0x17A0), (0x17A2, 0x17A2), (0x17A7, 0x17A7),
    (0x17AB, 0x17AC), (0x17AF, 0x17AF)] n

def Letter.of? (n : Nat) : Option Letter :=
  if isArabicAlef n then some .arabicAlef
  else if n = 0x5DC then some .hebrewLamed
  else if isKhmerLetter n then some .khmerLetter
  else if n = 0x1A10 then some .bugineseYa
  else if isTifinaghConsonant n then some .tifinaghConsonant
  else if 0xA4FC ≤ n ∧ n ≤ 0xA4FD then some .lisuTone
  else if n = 0x10C03 then some .orkhonI
  else if n = 0x16D67 then some .kiratE
  else if n = 0x16D68 then some .kiratAi
  else none

/-- Whether a letter can be joined through characters that only choose forms. -/
def Letter.seesThrough : Letter → Bool
  | .arabicAlef | .kiratE | .kiratAi => false
  | _ => true

/-- The characters that only choose forms. -/
def isFormChooser (n : Nat) : Bool :=
  inRuns [(0x34F, 0x34F), (0x17B4, 0x17B5), (0x180B, 0x180D), (0x180F, 0x180F), (0xFE00, 0xFE0F),
    (0xE0100, 0xE01EF)] n

/-- Whether an Arabic letter reaches the next one over a character. -/
def isTransparent (n : Nat) : Bool := inRuns zeroWidthRuns n && !inRuns notTransparentRuns n

/-- What stands behind a place of a text. `joined` tells that a zero-width joiner
comes first; the emoji, keycap, flags and tags that are called joined have one in
front as well. -/
inductive Follower where
  | plain
  | lineFeed
  | letter (l : Letter) (joined : Bool)
  | emoji
  | skinTone
  | flagHalf
  | flagHalves
  | joinedEmoji
  | joinedKeycap
  | joinedFlagHalf
  | joinedFlagHalves (even : Bool)
  | joinedTags (letters digits : Nat)
deriving DecidableEq, Repr

/-- A number of columns, and the follower for the character in front. -/
abbrev Join := Int × Follower

/-- What a letter makes with a character in front of it. -/
def Letter.join? (n : Nat) : Letter → (joined : Bool) → Option Join
  | .arabicAlef, _ =>
    if isArabicLam n then some (0, .plain)
    else if isTransparent n then some (0, .letter .arabicAlef false)
    else none
  | .hebrewLamed, true => if n = 0x5D0 then some (0, .plain) else none
  | .khmerLetter, false => if n = 0x17D2 then some (-1, .plain) else none
  | .bugineseYa, true => if n = 0x1A17 then some (0, .letter .bugineseVowelI false) else none
  | .bugineseVowelI, false => if n = 0x1A15 then some (0, .plain) else none
  | .tifinaghConsonant, joined =>
    if n = 0x2D7F then some (1, .letter .tifinaghJoiner false)
    else if joined && isTifinaghConsonant n then some (0, .plain)
    else none
  | .tifinaghJoiner, false => if isTifinaghConsonant n then some (-1, .plain) else none
  | .lisuTone, false => if 0xA4F8 ≤ n ∧ n ≤ 0xA4FB then some (0, .plain) else none
  | .orkhonI, true => if n = 0x10C32 then some (0, .plain) else none
  | .kiratE, _ =>
    if n = 0x16D63 ∨ n = 0x16D69 then some (0, .plain)
    else if n = 0x16D67 then some (0, .letter .kiratAi false)
    else if n = 0x16D68 then some (1, .letter .kiratE false)
    else none
  | .kiratAi, _ => if n = 0x16D63 then some (0, .plain) else none
  | _, _ => none

def isFlagHalf (n : Nat) : Bool := 0x1F1E6 ≤ n && n ≤ 0x1F1FF

def isSkinTone (n : Nat) : Bool := 0x1F3FB ≤ n && n ≤ 0x1F3FF

def isEmoji (n : Nat) : Bool := inRuns emojiRuns n

def keycap : Nat := 0x20E3

def isTagLetter (n : Nat) : Bool := 0xE0061 ≤ n && n ≤ 0xE007A

def isTagDigit (n : Nat) : Bool := 0xE0030 ≤ n && n ≤ 0xE0039

def tagEnd : Nat := 0xE007F

/-- The flag that tags in front of `tagEnd` turn into that of a region. -/
def taggedFlag : Nat := 0x1F3F4

/-- What an emoji, or a part of one, makes with a character in front of it. -/
def emojiJoin? (n : Nat) : Follower → Option Join
  | .skinTone => if inRuns modifiableRuns n then some (0, .emoji) else none
  | .flagHalf | .flagHalves => if isFlagHalf n then some (1, .flagHalves) else none
  | .joinedEmoji =>
    if n = keycap then some (0, .joinedKeycap)
    else if isFlagHalf n then some (1, .joinedFlagHalf)
    else if isSkinTone n then some (0, .skinTone)
    else if n = tagEnd then some (0, .joinedTags 0 0)
    else if isEmoji n then some (0, .emoji)
    else none
  | .joinedFlagHalf | .joinedFlagHalves false =>
    if isFlagHalf n then some (-1, .joinedFlagHalves true) else none
  | .joinedFlagHalves true => if isFlagHalf n then some (3, .joinedFlagHalves false) else none
  | .joinedTags letters digits =>
    if isTagLetter n && digits = 0 && letters < 6 then some (0, .joinedTags (letters + 1) 0)
    else if isTagDigit n && letters < 5 && digits < 3 then
      some (0, .joinedTags letters (digits + 1))
    else if n = taggedFlag && (digits = 3 || (digits = 0 && 3 ≤ letters)) then some (0, .emoji)
    else none
  | _ => none

/-- What a follower makes with a character in front of it. -/
def Follower.join? (n : Nat) : Follower → Option Join
  | .plain => none
  | .lineFeed => if n = 0xD then some (0, .plain) else none
  | .letter l joined =>
    if l.seesThrough && n = zeroWidthJoiner then some (0, .letter l true)
    else if l.seesThrough && isFormChooser n then some (0, .letter l joined)
    else l.join? n joined
  | follower =>
    match follower with
    | .emoji | .skinTone | .flagHalves | .joinedFlagHalves _ =>
      if n = zeroWidthJoiner then some (0, .joinedEmoji) else emojiJoin? n follower
    | _ => emojiJoin? n follower

end TraceExport.Text
