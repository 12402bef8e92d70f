/-!
Classes of characters used by the readers of this library. A text is read as
the list of its Unicode scalar values, and "blank" always means the Unicode
property White_Space, which has 25 members.
-/

namespace TraceExport.Text

/-- White space in the sense of Unicode. Zero-width spaces are not blank. -/
def isBlank (c : Char) : Bool :=
  let n := c.toNat
  (9 ≤ n && n ≤ 13) || n == 0x20 || n == 0x85 || n == 0xA0 || n == 0x1680 ||
    (0x2000 ≤ n && n ≤ 0x200A) || n == 0x2028 || n == 0x2029 || n == 0x202F ||
    n == 0x205F || n == 0x3000

/-- Blanks that may stand inside a line of a list: space and tab. -/
def isInlineBlank (c : Char) : Bool := c == ' ' || c == '\t'

def isControl (c : Char) : Bool :=
  let n := c.toNat
  n < 0x20 || (0x7F ≤ n && n ≤ 0x9F)

/-- Chinese characters that identifiers may be derived from. -/
def isHan (c : Char) : Bool :=
  let n := c.toNat
  0x4E00 ≤ n && n ≤ 0x9FA5

/-- Characters of a JavaScript identifier written in ASCII. -/
def isIdentChar (c : Char) : Bool := c.isAlphanum || c == '_' || c == '$'

/-- Characters that may open a JavaScript identifier written in ASCII. -/
def isIdentStart (c : Char) : Bool := c.isAlpha || c == '_' || c == '$'

theorem isIdentChar_of_isIdentStart {c : Char} (h : isIdentStart c) : isIdentChar c := by
  simp only [isIdentStart, isIdentChar, Char.isAlphanum, Bool.or_eq_true] at *
  rcases h with (h | h) | h <;> simp [h]

/-- A printed character of a step: anything that is not blank. -/
def isVisible (c : Char) : Bool := !isBlank c

/-- Equality of a letter with a pattern's letter when case is ignored. Besides
the two ASCII cases, the long s folds to `s` and the kelvin sign to `k`. -/
def sameLetter (pattern c : Char) : Bool :=
  pattern.toLower == c.toLower ||
    (pattern.toLower == 's' && c == '\u017f') || (pattern.toLower == 'k' && c == '\u212a')

@[simp] theorem sameLetter_self (c : Char) : sameLetter c c := by simp [sameLetter]

end TraceExport.Text
