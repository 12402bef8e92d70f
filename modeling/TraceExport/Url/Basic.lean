import TraceExport.Url.Host

/-!
URLs, taken apart. The parts are kept as they are written, with everything
escaped that has to be; only the host is kept as what it means.
-/

namespace TraceExport

namespace Url

/-- Where a URL's host is, and who asks. -/
structure Authority where
  username : String
  password : Option String
  host : Option Host
  /-- The port, unless it is the usual one of the scheme. -/
  port : Option Nat
deriving DecidableEq, Repr

/-- The path of a URL. Only a rootless one may begin without a slash. -/
inductive UrlPath where
  | rootless (text : String)
  | segments (names : List String)
deriving DecidableEq, Repr

def UrlPath.text : UrlPath → String
  | .rootless text => text
  | .segments names => String.ofList (names.flatMap fun name => '/' :: name.toList)

end Url

structure Url where
  scheme : String
  authority : Option Url.Authority
  path : Url.UrlPath
  query : Option String
  fragment : Option String
deriving DecidableEq, Repr

namespace Url

/-- How a scheme is read: addresses of files, the other special schemes, and all
the rest. -/
inductive SchemeKind where
  | file
  | special
  | other
deriving DecidableEq, Repr

def specialPorts : List (String × Nat) :=
  [("http", 80), ("https", 443), ("ws", 80), ("wss", 443), ("ftp", 21)]

def usualPort? (scheme : String) : Option Nat :=
  (specialPorts.find? (·.1 == scheme)).map (·.2)

def SchemeKind.of (scheme : String) : SchemeKind :=
  if scheme = "file" then .file
  else if (usualPort? scheme).isSome then .special
  else .other

/-- Whether a backslash stands for a slash. -/
def SchemeKind.isSpecial : SchemeKind → Bool
  | other => false
  | _ => true

def Authority.userinfo (a : Authority) : String :=
  match a.password with
  | some password => a.username ++ ":" ++ password ++ "@"
  | none => if a.username = "" then "" else a.username ++ "@"

def Authority.text (a : Authority) : String :=
  a.userinfo ++ (a.host.map Host.text).getD "" ++
    (match a.port with
      | some port => ":" ++ toString port
      | none => "")

/-- What stands between the scheme and the path. A path that opens with two
slashes must not be taken for a host. -/
def beforePath (u : Url) : String :=
  match u.authority with
  | some a => "//" ++ a.text
  | none => if Text.startsWith ['/', '/'] u.path.text.toList then "/." else ""

def marked (mark : String) : Option String → String
  | some text => mark ++ text
  | none => ""

def text (u : Url) : String :=
  u.scheme ++ ":" ++ u.beforePath ++ u.path.text ++ marked "?" u.query ++ marked "#" u.fragment

end Url

end TraceExport
