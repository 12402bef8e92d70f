import TraceExport.Text.Basic
import TraceExport.Text.Width

/-!
Tables drawn with lines. A cell may hold several lines; a column is as wide as
the widest line in it, with a blank on either side.
-/

namespace TraceExport.Report

open Text

/-- The signs that a rule across the table is drawn with. -/
structure Rule where
  left : Char
  line : Char
  cross : Char
  right : Char

def topRule : Rule := ⟨'┌', '─', '┬', '┐'⟩

def headerRule : Rule := ⟨'╞', '═', '╪', '╡'⟩

def rowRule : Rule := ⟨'├', '╌', '┼', '┤'⟩

def bottomRule : Rule := ⟨'└', '─', '┴', '┘'⟩

abbrev Cell := List (List Char)

def Cell.ofText (s : String) : Cell := splitOn (· == '\n') s.toList

def Cell.width (c : Cell) : Nat := (c.map Text.width).foldl max 0

/-- The width of each column of some rows, which have one cell for each. -/
def columnWidths (columns : Nat) (rows : List (List Cell)) : List Nat :=
  (List.range columns).map fun i => (rows.map fun row => Cell.width (row[i]?.getD [])).foldl max 0

def Rule.draw (r : Rule) (widths : List Nat) : List Char :=
  r.left :: join [r.cross] (widths.map fun w => List.replicate (w + 2) r.line) ++ [r.right]

/-- A line of a cell, filled up to the width of its column. -/
def fill (width : Nat) (line : List Char) : List Char :=
  ' ' :: line ++ List.replicate (width - Text.width line) ' ' ++ [' ']

def drawLine (widths : List Nat) (cells : List Cell) (i : Nat) : List Char :=
  let parts := (cells.zip widths).map fun (cell, width) => fill width (cell[i]?.getD [])
  '│' :: join ['┆'] parts ++ ['│']

def drawRow (widths : List Nat) (cells : List Cell) : List (List Char) :=
  (List.range ((cells.map List.length).foldl max 0)).map (drawLine widths cells)

/-- The rows with a rule between any two of them. -/
def drawRows (widths : List Nat) : List (List Cell) → List (List Char)
  | [] => []
  | [row] => drawRow widths row
  | row :: rows => drawRow widths row ++ rowRule.draw widths :: drawRows widths rows

def table (headers : List String) (rows : List (List String)) : String :=
  let head := headers.map Cell.ofText
  let body := rows.map fun row => row.map Cell.ofText
  let widths := columnWidths headers.length (head :: body)
  let lines := topRule.draw widths :: drawRow widths head ++ headerRule.draw widths ::
    drawRows widths body ++ [bottomRule.draw widths]
  String.ofList (join ['\n'] lines)

end TraceExport.Report
