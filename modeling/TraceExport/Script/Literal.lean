import TraceExport.Text.Basic

/-!
String literals of the generated script. `escapeQuoted` writes a text inside
single quotes, `escapeTemplate` writes it inside backquotes, where a dollar sign
in front of a brace would open an expression.
-/

namespace TraceExport.Script

def escapeQuotedChar : Char → List Char
  | '\\' => ['\\', '\\']
  | '\'' => ['\\', '\'']
  | '\n' => ['\\', 'n']
  | '\r' => ['\\', 'r']
  | '\t' => ['\\', 't']
  | c => [c]

def escapeQuoted (s : String) : String := String.ofList (s.toList.flatMap escapeQuotedChar)

def quoted (s : String) : String := "'" ++ escapeQuoted s ++ "'"

def backquote : Char := '\x60'

def escapeTemplate : List Char → List Char
  | [] => []
  | '$' :: '\x7b' :: s => '\\' :: '$' :: '\x7b' :: escapeTemplate s
  | c :: s =>
    if c == '\\' || c == backquote then '\\' :: c :: escapeTemplate s
    else c :: escapeTemplate s

end TraceExport.Script
