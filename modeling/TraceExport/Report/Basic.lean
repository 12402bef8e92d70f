import TraceExport.Export.Basic
import TraceExport.Json.Printer
import TraceExport.Report.Table

/-!
Reports: one row for each specification, shown as a table, as JSON, or as plain
lines.
-/

namespace TraceExport

namespace Report

inductive Format where
  | table
  | json
  | plain
deriving DecidableEq, Repr

def Format.ofName? : String → Option Format
  | "table" => some table
  | "json" => some json
  | "plain" => some plain
  | _ => none

/-- A row of a report, as the texts of its cells and as the members of an
object. -/
structure Row where
  cells : List String
  members : List (String × Json)

end Report

structure Report where
  headers : List String
  rows : List Report.Row

namespace Report

/-- The longest reason that is shown in a cell. -/
def reasonLength : Nat := 160

def reasonCell (reason : Option String) : String :=
  (reason.map (Text.truncate reasonLength)).getD ""

def exportHeaders : List String := ["Spec", "Status", "Output", "Reason"]

def exportRow (spec : String) (o : Export.Outcome) : Row where
  cells := [spec, if o.ok then "exported" else "failed", o.shownPath.getD "-",
    reasonCell o.reason]
  members := ("spec", .string spec) :: o.members

def checkHeaders : List String := ["Spec", "Exportable", "Code", "Reason"]

def checkRow (spec : String) (e : Export.Exportability) : Row where
  cells := [spec, if e.exportable then "yes" else "no", e.code.getD "-", reasonCell e.reason]
  members := ("spec", .string spec) :: e.members

/-- The cells of a row under their headers, one a line. -/
def plainRow (headers cells : List String) : String :=
  "\n".intercalate ((headers.zip cells).map fun (header, cell) => header ++ ": " ++ cell)

def render (r : Report) : Format → String
  | .table => table r.headers (r.rows.map (·.cells))
  | .json => (Json.array (r.rows.map fun row => .object row.members)).layout 0
  | .plain => "\n---\n".intercalate (r.rows.map fun row => plainRow r.headers row.cells)

/-- What is printed for a report. Only JSON shows that there are no rows. -/
def print (r : Report) (format : Format) : String :=
  if r.rows.isEmpty && format != .json then "No specs found.\n" else r.render format ++ "\n"

end Report

end TraceExport
