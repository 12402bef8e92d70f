import TraceExport.Url.Parser

/-!
URLs without secrets. The user information is dropped, and in the query the
values under some names are masked. For that the query is read as a form and
written again.
-/

namespace TraceExport.Url

open Text

abbrev Pair := List Char × List Char

/-- The text that a form writes; a plus stands for a space. -/
def formText (s : List Char) : List Char :=
  Utf8.decodeLossy (unescape (s.map fun c => if c == '+' then ' ' else c))

/-- The entries of a form; empty ones are passed over. -/
def formPairs (s : List Char) : List Pair :=
  ((splitOn (· == '&') s).filter (!·.isEmpty)).map fun entry =>
    let (name, value) := cutAt '=' entry
    (formText name, formText (value.getD []))

def isFormChar (c : Char) : Bool := c.isAlphanum || "*-._".toList.contains c

def formEscape (s : List Char) : List Char :=
  s.flatMap fun c => if c == ' ' then ['+'] else escape (!isFormChar ·) [c]

def writePairs (pairs : List Pair) : List Char :=
  join ['&'] (pairs.map fun p => formEscape p.1 ++ '=' :: formEscape p.2)

/-- Names of entries whose values are secret. -/
def secretNames : List String :=
  ["token", "key", "secret", "password", "auth", "api_key", "apikey", "access_token"]

def mask : List Char := "[REDACTED]".toList

def maskPair (p : Pair) : Pair :=
  if secretNames.contains (String.ofList p.1) then (p.1, mask) else p

def maskQuery (query : String) : String :=
  String.ofList (writePairs ((formPairs query.toList).map maskPair))

/-- Whether a URL names a user. -/
def hasUser (u : Url) : Bool :=
  match u.authority with
  | some a => a.username != "" || a.password.isSome
  | none => false

/-- Whether the user of a URL can be set. There has to be a host, and a file has no user. -/
def canHaveUser (u : Url) : Bool :=
  match u.authority.bind (·.host) with
  | some host => host != .domain "" && u.scheme != "file"
  | none => false

def withoutUser (u : Url) : Url :=
  if u.hasUser && u.canHaveUser then
    { u with authority := u.authority.map fun a => { a with username := "", password := none } }
  else u

def withoutSecrets (u : Url) : Url :=
  { u.withoutUser with query := u.query.map maskQuery }

/-- The length at which a text that is no URL is cut. -/
def shownLength : Nat := 400

/-- A URL as it may be written into a log. -/
def redact (text : String) : String :=
  match parse? text with
  | some u => u.withoutSecrets.text
  | none => truncate shownLength text

end TraceExport.Url
