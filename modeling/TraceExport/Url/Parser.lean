import TraceExport.Url.Basic

/-!
Reading absolute URLs. Query and fragment are cut off first, since neither mark
can occur in front of them; what is left is a scheme, an authority and a path,
and each is read by a function of its own. Blanks around a URL are dropped, and
so are tabs and line breaks anywhere; in the path of a file they are kept until
its segments are made, since one right behind a drive still parts two segments.
-/

namespace TraceExport.Url

open Text

def isTabOrBreak (c : Char) : Bool := c == '\t' || c == '\n' || c == '\r'

/-- A space or a control character, which may surround a URL. -/
def isOuter (c : Char) : Bool := c.toNat ≤ 0x20

def withoutOuter (s : List Char) : List Char := trimEndOf isOuter (s.dropWhile isOuter)

/-- The characters that count. -/
def solid (s : List Char) : List Char := s.filter (!isTabOrBreak ·)

/-- Cuts a text at a mark, which belongs to neither side. -/
def cutAt (mark : Char) (s : List Char) : List Char × Option (List Char) :=
  match s.dropWhile (· != mark) with
  | [] => (s, none)
  | _ :: rest => (s.takeWhile (· != mark), some rest)

def isSchemeChar (c : Char) : Bool := c.isAlphanum || c == '+' || c == '-' || c == '.'

/-- The scheme in lower case, and what follows its colon. -/
def readScheme? (s : List Char) : Option (String × List Char) :=
  match cutAt ':' s with
  | (name, some rest) =>
    let name := solid name
    if (name.head?.map Char.isAlpha).getD false && name.all isSchemeChar then
      some (String.ofList (name.map Char.toLower), rest)
    else none
  | (_, none) => none

def SchemeKind.isSlash (kind : SchemeKind) (c : Char) : Bool :=
  c == '/' || (kind.isSpecial && c == '\\')

def isDriveLetter : List Char → Bool
  | c :: d :: rest =>
    c.isAlpha && (d == ':' || d == '|') && (rest.isEmpty || rest.head? == some '\\')
  | _ => false

/-- Whether a segment stays where it is, its point perhaps escaped. -/
def isSingleDot (s : List Char) : Bool :=
  s.map Char.toLower == ['.'] || s.map Char.toLower == "%2e".toList

/-- Whether a segment goes up, its points perhaps escaped. -/
def isDoubleDot (s : List Char) : Bool :=
  ["..", ".%2e", "%2e.", "%2e%2e"].any fun form => s.map Char.toLower == form.toList

/-- Goes up one segment, but never above a drive letter. The segments are kept
with the last one in front. -/
def goUp : List (List Char) → List (List Char)
  | [] => []
  | top :: below => if isDriveLetter top then top :: below else below

/-- The letter of a drive and the text behind it, if a tab or a line break comes
between the two. -/
def brokenDrive? (s : List Char) : Option (Char × List Char) :=
  match cutAt ':' s with
  | (name, some (b :: rest)) =>
    match solid name, solid rest with
    | [c], d :: rest =>
      if c.isAlpha && isTabOrBreak b then some (c, d :: rest) else none
    | _, _ => none
  | _ => none

/-- A path of which some segments have been read: those that stand so far, with
the last one in front, and whether a drive has been put first. -/
structure Walk where
  segments : List (List Char)
  onDrive : Bool
deriving DecidableEq, Repr

namespace Walk

def start : Walk := ⟨[], false⟩

def up (w : Walk) : Walk := { w with segments := goUp w.segments }

def push (w : Walk) (segment : List Char) : Walk :=
  { w with segments := escape isEscapedInPath segment :: w.segments }

/-- Adds a segment without dots. The drive that opens the path of a file is
written with a colon, and is a segment of its own if it is cut off by a break. -/
def add (kind : SchemeKind) (w : Walk) (segment : List Char) : Walk :=
  if kind = .file ∧ w.segments = [] then
    match solid segment, brokenDrive? segment with
    | [c, d], _ => if isDriveLetter [c, d] then ⟨[[c, ':']], true⟩ else w.push [c, d]
    | _, some (drive, rest) => (w.push [drive, ':']).push rest
    | s, none => w.push s
  else w.push (solid segment)

/-- Reads the segments of a path. A path that ends in dots ends with a slash. -/
def read (kind : SchemeKind) (w : Walk) : List (List Char) → Walk
  | [] => w
  | segment :: rest =>
    let stay (w : Walk) := if rest.isEmpty then w.push [] else w
    if isDoubleDot (solid segment) then read kind (stay w.up) rest
    else if isSingleDot (solid segment) then read kind (stay w) rest
    else read kind (w.add kind segment) rest

end Walk

def readPath (kind : SchemeKind) (s : List Char) : Walk :=
  Walk.start.read kind (splitOn kind.isSlash s)

def pathSegments (kind : SchemeKind) (s : List Char) : List (List Char) :=
  (readPath kind s).segments.reverse

def ofSegments (segments : List (List Char)) : UrlPath := .segments (segments.map String.ofList)

/-- The path that follows an authority. It is never empty in a special URL. -/
def pathAfterAuthority (kind : SchemeKind) (s : List Char) : UrlPath :=
  match s with
  | [] => if kind.isSpecial then ofSegments [[]] else ofSegments []
  | c :: rest =>
    if kind.isSlash c then ofSegments (pathSegments kind rest)
    else ofSegments (pathSegments kind (c :: rest))

/-- Cuts the name of a host off a port; colons in brackets belong to the host. -/
def splitHost (inside : Bool) : List Char → List Char × Option (List Char)
  | [] => ([], none)
  | c :: s =>
    if c = ':' ∧ ¬ inside then ([], some s)
    else
      let r := splitHost (if c = '[' then true else if c = ']' then false else inside) s
      (c :: r.1, r.2)

/-- Reads a port. The usual one of the scheme counts as none. -/
def readPort? (scheme : String) (s : List Char) : Option (Option Nat) :=
  if s.isEmpty then some none
  else if s.all Char.isDigit then
    match number? 10 s with
    | some port =>
      if port < 65536 then some (if usualPort? scheme = some port then none else some port)
      else none
    | none => none
  else none

/-- Cuts the user information off a host, at the last at-sign. -/
def splitUserinfo (s : List Char) : Option (List Char) × List Char :=
  if s.contains '@' then
    let host := (s.reverse.takeWhile (· != '@')).reverse
    (some (s.take (s.length - host.length - 1)), host)
  else (none, s)

/-- The name and the password of a user; an empty password counts as none. -/
def readUserinfo (s : List Char) : String × Option String :=
  let written (s : List Char) := String.ofList (escape isEscapedInUserinfo s)
  match cutAt ':' s with
  | (name, none) | (name, some []) => (written name, none)
  | (name, some password) => (written name, some (written password))

/-- Reads a host and port. A special URL has to have a host, and so has one with
a port. -/
def readHostPort? (kind : SchemeKind) (scheme : String) (s : List Char) :
    Option (Option Host × Option Nat) := do
  let (name, port) := splitHost false s
  if name.isEmpty then
    if kind.isSpecial || port.isSome then none else some (none, none)
  else
    let host ← if kind.isSpecial then specialHost? name else plainHost? name
    pure (some host, ← readPort? scheme (port.getD []))

/-- Cuts an authority off the path that follows it. In a URL that is not special
a backslash ends the port only. -/
def splitAuthority (kind : SchemeKind) (s : List Char) : List Char × List Char :=
  let authority := s.takeWhile (!kind.isSlash ·)
  let rest := s.dropWhile (!kind.isSlash ·)
  match splitHost false (splitUserinfo authority).2 with
  | (_, some port) =>
    let tail := port.dropWhile (· != '\\')
    (authority.take (authority.length - tail.length), tail ++ rest)
  | _ => (authority, rest)

/-- Reads an authority and the path after it. `last` tells whether neither query
nor fragment follows. An at-sign that opens the authority has to have a host
behind it, unless it ends the URL. -/
def readAuthority? (kind : SchemeKind) (scheme : String) (last : Bool) (s : List Char) :
    Option (Authority × UrlPath) := do
  let (authority, rest) := splitAuthority kind s
  let (userinfo, hostPort) := splitUserinfo authority
  if userinfo == some [] && hostPort.isEmpty && !(rest.isEmpty && last) then none
  let (username, password) := readUserinfo (userinfo.getD [])
  let (host, port) ← readHostPort? kind scheme hostPort
  if host.isNone && (username != "" || password.isSome) then none
  pure (⟨username, password, host, port⟩, pathAfterAuthority kind rest)

/-- The path of a file, without the empty segments that open it. -/
def Walk.filePath (w : Walk) : UrlPath :=
  match w.segments.reverse.dropWhile List.isEmpty with
  | [] => ofSegments [[]]
  | segments => ofSegments segments

def localHost : Host := .domain "localhost"

def ofFile (s : List Char) : Authority × UrlPath :=
  (⟨"", none, none, none⟩, (readPath .file s).filePath)

def afterSlash? (s : List Char) : Option (List Char) :=
  match s.dropWhile isTabOrBreak with
  | c :: rest => if SchemeKind.isSlash .file c then some rest else none
  | [] => none

/-- Reads what follows two slashes: a drive is a part of the path, and the local
host counts as none. The slash behind a host opens the path; without a host it
stands for an empty segment. A path that starts on a drive belongs to no host. -/
def readFileAuthority? (s : List Char) : Option (Authority × UrlPath) :=
  let name := solid (s.takeWhile (!SchemeKind.isSlash .file ·))
  let rest := s.dropWhile (!SchemeKind.isSlash .file ·)
  if isDriveLetter name then some (ofFile s)
  else if name.isEmpty then some (ofFile rest)
  else do
    let host ← specialHost? name
    if host = localHost then return ofFile rest
    let path := readPath .file (rest.drop 1)
    pure (⟨"", none, if path.onDrive then none else some host, none⟩, path.filePath)

def readFile? (s : List Char) : Option (Authority × UrlPath) :=
  match afterSlash? s with
  | none => some (ofFile s)
  | some rest =>
    match afterSlash? rest with
    | none => some (ofFile rest)
    | some rest => readFileAuthority? rest

/-- Reads what follows the scheme of a URL, query and fragment apart. -/
def readBody? (scheme : String) (last : Bool) (s : List Char) :
    Option (Option Authority × UrlPath) :=
  match SchemeKind.of scheme, solid s with
  | .file, _ => (readFile? s).map fun r => (some r.1, r.2)
  | .special, s =>
    (readAuthority? .special scheme last (s.dropWhile (SchemeKind.isSlash .special))).map
      fun r => (some r.1, r.2)
  | .other, '/' :: '/' :: rest =>
    (readAuthority? .other scheme last rest).map fun r => (some r.1, r.2)
  | .other, '/' :: rest => some (none, ofSegments (pathSegments .other rest))
  | .other, s => some (none, .rootless (String.ofList (escape isAlwaysEscaped s)))

def parse? (text : String) : Option Url := do
  let (front, fragment) := cutAt '#' (withoutOuter text.toList)
  let (main, query) := cutAt '?' front
  let (scheme, body) ← readScheme? main
  let (authority, path) ← readBody? scheme (query.isNone && fragment.isNone) body
  let querySet :=
    if (SchemeKind.of scheme).isSpecial then isEscapedInSpecialQuery else isEscapedInQuery
  pure {
    scheme, authority, path
    query := query.map fun s => String.ofList (escape querySet (solid s))
    fragment := fragment.map fun s => String.ofList (escape isEscapedInFragment (solid s)) }

end TraceExport.Url
