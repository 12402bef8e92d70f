import TraceExport.Replay.Error
import TraceExport.Script.Statement
import TraceExport.Spec.Markdown
import TraceExport.Spec.Wording
import TraceExport.Trace.Codec
import TraceExport.Url.Origin

/-!
Replaying one recorded action. The tool alone decides which statement is
written. The trace holds values after the variables of the specification were
filled in; where the text of the step says that a value came from a variable,
the variable is written instead, and where it may have done so the value is
withheld.
-/

namespace TraceExport.Replay

open Script Spec Trace

structure Context where
  baseUrl : String
  loginBaseUrl : Option String
  /-- The text of the step with its variables, if it has any. -/
  source : Option StepSource
deriving DecidableEq, Repr

namespace Context

/-- The text of the step before its variables got values. -/
def rawText? (ctx : Context) : Option (List Char) := ctx.source.map fun s => s.text.toList

end Context

/-- What follows the origin of a URL and the variable of the address that it
belongs to: the application's, or else that of the login pages. -/
def rebased? (ctx : Context) (url : String) : Option (String × String) :=
  match Url.relativeToOrigin? ctx.baseUrl url with
  | some path => some (path, Placeholder.baseUrl)
  | none =>
    (ctx.loginBaseUrl.bind fun login => Url.relativeToOrigin? login url).map
      fun path => (path, Placeholder.loginBaseUrl)

/-- Whether a recorded address has to be taken for an absolute one. -/
def looksAbsolute (url : String) : Bool := Text.startsWith "http".toList url.toList

def targetOfUrl (ctx : Context) (url : String) : Expr :=
  if looksAbsolute url then
    match rebased? ctx url with
    | some (path, var) => .onAddress path var
    | none => .literal url
  else .onAddress url Placeholder.baseUrl

/-- The path of a text that is one of the two addresses with a path after it, in
which there are no more variables; and the variable of that address. -/
def pathOnAddress? (raw : List Char) : Option (String × String) :=
  [Placeholder.baseUrl, Placeholder.loginBaseUrl].findSome? fun var =>
    match (Placeholder.afterVariable? var raw).map fun rest => String.ofList (Text.trim rest) with
    | some path =>
      if path != "" && (Placeholder.vars path).isEmpty then some (path, var) else none
    | none => none

def targetOfText (ctx : Context) (raw : List Char) : Expr :=
  match pathOnAddress? raw with
  | some (path, var) => .onAddress path var
  | none => (Expr.ofTemplate? (String.ofList raw)).getD (targetOfUrl ctx (String.ofList raw))

/-- Whether a target with variables in it is certain to be an address. -/
def isAddressTemplate (raw : List Char) : Bool :=
  Placeholder.startsWithAddress raw || raw.contains '/'

/-- Whether the recorded address says nothing about values of variables. -/
def canRebase (ctx : Context) (url : String) : Bool :=
  !looksAbsolute url || (rebased? ctx url).isSome

/-- The target with variables that a step navigates to in so many words. -/
def namedTarget? (ctx : Context) : Option (List Char) :=
  (ctx.rawText?.bind navigationTarget?).filter fun target =>
    !(Placeholder.vars (String.ofList target)).isEmpty

/-- Where a `navigate` goes, from the text of the step and the recorded address. -/
def target? (ctx : Context) (recorded : Option String) : Option Expr :=
  match namedTarget? ctx with
  | some raw => some (targetOfText ctx raw)
  | none =>
    match ctx.rawText?.bind addressToken?, recorded with
    | some raw, some url =>
      if !isAddressTemplate raw && canRebase ctx url then some (targetOfUrl ctx url)
      else some (targetOfText ctx raw)
    | some raw, none => some (targetOfText ctx raw)
    | none, some url => some (targetOfUrl ctx url)
    | none, none => none

/-- The text that a check looks for, as it may be written down. -/
inductive AssertedText where
  | symbolic (text : Expr)
  | literal (text : String)
  /-- It came from variables in a way that cannot be told. -/
  | withheld (vars : List String)
deriving DecidableEq, Repr

/-- The text that the source of a step says is checked for, if it has a variable
in it. -/
def symbolicText? (source : StepSource) : Option Expr :=
  match (Placeholder.sole? source.text.toList).filter
      fun name => !Placeholder.isAddress (String.ofList name) with
  | some name => some (.binding (String.ofList name))
  | none => (assertedText? source.text.toList).bind fun raw => Expr.ofTemplate? (String.ofList raw)

/-- Whether a recorded text is the one that the source of a step names, so that
no variable went into it. -/
def isNamedText (source : StepSource) (recorded : String) : Bool :=
  assertedText? source.text.toList == some (Text.trim recorded.toList)

def assertedFrom? (source : StepSource) (recorded : Option String) : Option AssertedText :=
  match symbolicText? source with
  | some text => some (.symbolic text)
  | none =>
    if source.valueVar?.isSome then
      match recorded.filter (isNamedText source) with
      | some text => some (.literal text)
      | none => some (.withheld (source.vars.filter (!Placeholder.isAddress ·)))
    else recorded.map .literal

def asserted? (ctx : Context) (recorded : Option String) : Option AssertedText :=
  match ctx.source with
  | some source => assertedFrom? source recorded
  | none => recorded.map .literal

def envKey (var : String) : String := "AUTOQA_" ++ var

/-- The statement that checks for a text, under a name if one of several places
is meant. -/
def checkText (name : String) (text : Expr) : Option Nat → Statement
  | some nth => .expectNthText name text nth
  | none => .expectText text

def checkAsserted (nth : Option Nat) : AssertedText → Statement
  | .symbolic text => checkText (variablesName text.vars) text nth
  | .literal text => checkText (textName text) (.literal text) nth
  | .withheld vars =>
    .todo ("expected text depends on " ++ ", ".intercalate (vars.map envKey) ++
      " and was not exported")

def fillWith (ctx : Context) (locator : String) : Option FillValue → Except Cause Statement
  | some (.ofVariable name) =>
    if Placeholder.isName name then .ok (.fill locator (.binding name) none)
    else .error (.badVariable name)
  | some (.literal value) => .ok (.fill locator (.literal value) none)
  | some .redacted =>
    match ctx.source.bind StepSource.valueVar? with
    | some name => .ok (.fill locator (.binding name) none)
    | none => .ok (.fill locator (.literal "") (some "fill value was redacted"))
  | none => .ok (.fill locator (.literal "") (some "fill value not captured"))

/-- A length in seconds, in whole milliseconds. -/
def milliseconds (seconds : Float) : Nat := (seconds * 1000.0).round.toUInt64.toNat

/-- What a record has, or the reason why it cannot be replayed. -/
def demand {α : Type} (cause : Cause) : Option α → Except Cause α
  | some value => .ok value
  | none => .error cause

def statement (r : Record) (ctx : Context) : Except Cause Statement :=
  match r.tool with
  | .navigate => do
    let target ← demand .noUrl (target? ctx r.input.url?)
    pure (.goto target)
  | .click => do
    let locator ← demand .noLocator r.locatorCode?
    pure (.click locator)
  | .fill => do
    let locator ← demand .noLocator r.locatorCode?
    fillWith ctx locator r.input.fillValue?
  | .selectOption => do
    let locator ← demand .noLocator r.locatorCode?
    let label ← demand .noLabel r.input.label?
    pure (.selectOption locator label)
  | .assertText => do
    let text ← demand .noText (asserted? ctx r.input.expectedText?)
    pure (checkAsserted r.input.visibleNth? text)
  | .assertElement => do
    let locator ← demand .noLocator r.locatorCode?
    pure (.expectElement (elementName r.fingerprint) locator)
  | .scroll => pure .nothing
  | .wait => do
    let seconds ← demand .noSeconds r.input.seconds?
    pure (.pause (milliseconds seconds))
  | .other name =>
    pure (.todo ("Step " ++ stepLabel r.step ++ " - Unsupported tool: " ++ Text.flattenLine name))

def generate (r : Record) (ctx : Context) : Except Error Statement :=
  (statement r ctx).mapError (Error.of r)

end TraceExport.Replay
