import TraceExport.Text.Class
import TraceExport.Text.CaseTable
import TraceExport.Text.Runs

/-!
Lower-casing of whole texts. Every character is lowered on its own, with two
exceptions of Unicode: the dotted capital I becomes two characters, and a
capital sigma at the end of a word takes its final form.
-/

namespace TraceExport.Text

/-- The lower-case form of one character, other than dotted I and sigma. -/
def lowerChar (c : Char) : Char :=
  if c.toNat < 0x80 then c.toLower
  else
    match caseRuns.findSome? (·.lower? c.toNat) with
    | some n => Char.ofNat n
    | none => c

def isCased (c : Char) : Bool := inRuns casedRuns c.toNat

def isCaseIgnorable (c : Char) : Bool := inRuns caseIgnorableRuns c.toNat

/-- Whether the nearest character that is not passed over has case. -/
def casedNext (s : List Char) : Bool :=
  ((s.dropWhile isCaseIgnorable).head?.map isCased).getD false

/-- Lower-cases a text of which `before` has been read, last character first. -/
def lowerFrom (before : List Char) : List Char → List Char
  | [] => []
  | c :: rest =>
    let image :=
      if c == 'Σ' then
        if casedNext before && !casedNext rest then ['ς'] else ['σ']
      else if c == 'İ' then ['i', '\u0307']
      else [lowerChar c]
    image ++ lowerFrom (c :: before) rest

def lower (s : List Char) : List Char := lowerFrom [] s

end TraceExport.Text
