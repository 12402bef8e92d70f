import TraceExport.Url.Parser

/-!
References, as a browser reads them: a text that is a URL itself, or one that is
followed from the URL of a base. Only what a reference leaves out is taken from the
base. Bases that are addresses of files have rules of their own and are left out.
-/

namespace TraceExport.Url

open Text

/-- The folder that a path lies in, its last segment in front. -/
def UrlPath.folder : UrlPath → List (List Char)
  | .rootless _ => []
  | .segments names => (names.map String.toList).reverse.tail

/-- Follows a reference without scheme, query and fragment: to another authority after two
slashes, from the root of the base after one, and else from the folder of the base. `last` tells
whether neither query nor fragment follows. -/
def follow? (base : Url) (last : Bool) (s : List Char) : Option (Option Authority × UrlPath) :=
  let kind := SchemeKind.of base.scheme
  match s with
  | [] => some (base.authority, base.path)
  | c :: rest =>
    if kind.isSlash c then
      match rest with
      | [] => some (base.authority, ofSegments (pathSegments kind []))
      | d :: host =>
        if kind.isSlash d then
          let host := if kind.isSpecial then host.dropWhile kind.isSlash else host
          (readAuthority? kind base.scheme last host).map fun r => (some r.1, r.2)
        else some (base.authority, ofSegments (pathSegments kind (d :: host)))
    else
      let walk := (Walk.mk base.path.folder false).read kind (splitOn kind.isSlash (c :: rest))
      some (base.authority, ofSegments walk.segments.reverse)

/-- The URL of a reference without a scheme. A base without a root has no folders; only
a fragment can be taken in it. -/
def followed? (base : Url) (main : List Char) (query fragment : Option (List Char)) :
    Option Url :=
  let querySet :=
    if (SchemeKind.of base.scheme).isSpecial then isEscapedInSpecialQuery else isEscapedInQuery
  let query? := query.map fun s => String.ofList (escape querySet (solid s))
  let fragment? := fragment.map fun s => String.ofList (escape isEscapedInFragment (solid s))
  if SchemeKind.of base.scheme = .file then none
  else
    match base.path with
    | .rootless _ =>
      if (solid main).isEmpty && query.isNone && fragment.isSome then
        some { base with fragment := fragment? }
      else none
    | .segments _ => do
      let (authority, path) ← follow? base (query.isNone && fragment.isNone) (solid main)
      pure {
        scheme := base.scheme, authority, path
        query := if (solid main).isEmpty && query.isNone then base.query else query?
        fragment := fragment? }

/-- Reads a reference against a base. A scheme makes it a URL of its own, unless it is the one of
the base and special: then it may be left out. -/
def resolve? (base : Url) (reference : String) : Option Url :=
  let (front, fragment) := cutAt '#' (withoutOuter reference.toList)
  let (main, query) := cutAt '?' front
  match readScheme? main with
  | none => followed? base main query fragment
  | some (scheme, body) =>
    if scheme = base.scheme ∧ (SchemeKind.of scheme).isSpecial then
      followed? base body query fragment
    else parse? reference

/-- What a script gets from `new URL(reference, base).toString()`. -/
def resolvedText? (reference base : String) : Option String := do
  let u ← resolve? (← parse? base) reference
  pure u.text

end TraceExport.Url
