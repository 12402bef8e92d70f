import TraceExport.Url.Parser

/-!
Origins. Two URLs have the same origin when scheme, host and port agree. Only
the schemes of the web have origins that can be compared; the origin of a blob
is that of the URL inside it.
-/

namespace TraceExport.Url

structure Origin where
  scheme : String
  host : Host
  port : Nat
deriving DecidableEq, Repr

/-- The origin of a URL, looking into at most `depth` blobs. -/
def originWithin? : Nat → Url → Option Origin
  | 0, _ => none
  | depth + 1, u =>
    if u.scheme = "blob" then (parse? u.path.text).bind (originWithin? depth)
    else do
      let usual ← usualPort? u.scheme
      let authority ← u.authority
      pure ⟨u.scheme, ← authority.host, authority.port.getD usual⟩

/-- The origin of a URL, if it can be compared. A blob is longer than what it
holds, so its length bounds the depth. -/
def origin? (u : Url) : Option Origin := originWithin? (u.path.text.length + 1) u

/-- Path, query and fragment; an empty query or fragment is left out. -/
def afterOrigin (u : Url) : String :=
  u.path.text ++ marked "?" (u.query.filter (· != "")) ++
    marked "#" (u.fragment.filter (· != ""))

/-- What follows the origin of a URL, if it has the same one as `base`. -/
def relativeToOrigin? (base url : String) : Option String := do
  let url ← parse? url
  let base ← parse? base
  if (← url.origin?) = (← base.origin?) then some url.afterOrigin else none

def isWebAddress (text : String) : Bool :=
  match parse? text with
  | some u => u.scheme == "http" || u.scheme == "https"
  | none => false

end TraceExport.Url
