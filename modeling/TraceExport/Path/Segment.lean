import TraceExport.Text.Basic

/-!
Names for files and directories made from arbitrary text. Whatever the text,
the name is a single component that cannot climb out of its directory.
-/

namespace TraceExport.Segment

def maxLength : Nat := 200

/-- Characters that are removed: those that common file systems refuse, and
control characters. -/
def isUnsafe (c : Char) : Bool :=
  ['<', '>', ':', '"', '|', '?', '*'].contains c || Text.isControl c

def isSeparator (c : Char) : Bool := c == '/' || c == '\\'

/-- Turns each run of separators into one underscore. `inRun` tells whether the
character before was a separator. -/
def collapse (inRun : Bool) : List Char → List Char
  | [] => []
  | c :: s =>
    if isSeparator c then
      if inRun then collapse true s else '_' :: collapse true s
    else c :: collapse false s

def trimmed (s : List Char) : List Char :=
  Text.trimEndOf (· == '_') (s.dropWhile fun c => c == '.' || c == '_')

/-- The characters of the name, before an empty one is replaced. -/
def characters (s : List Char) : List Char :=
  let kept := s.filter (!isUnsafe ·)
  (trimmed (collapse false (Text.replaceAll ['.', '.'] [] kept))).take maxLength

def sanitize (text : String) : String :=
  match characters text.toList with
  | [] => "unknown"
  | s => String.ofList s

end TraceExport.Segment
