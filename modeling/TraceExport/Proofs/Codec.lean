import TraceExport.Proofs.Members
import TraceExport.Trace.Codec
import Mathlib.Algebra.Group.Int.Defs
import Mathlib.Algebra.Group.Nat.Defs

/-!
Records that are written and read again. What a record is written as may come back
with its members in another order and with members that nobody here knows, in the
record itself and in every record inside it: it is read as the same record
(`decode_widened`). A record that is read is always one that can be written
(`fits_of_decode`).
-/

namespace TraceExport.Trace

open Json

/-! ### Records inside a record -/

/-- Values that are no records of their own come back as they are. -/
def kept (_ : String) (value wider : Json) : Prop := value = wider

section

variable {fs : Fields} {name : String}

theorem optional_string_of_rel {text : Option String}
    (h : Option.Rel (kept name) (text.map string) (fs name)) :
    optional asString fs name = .ok text := by
  refine optional_of_rel h (by simp [asString]) fun s _ wider hwider => ?_
  obtain rfl : string s = wider := hwider
  rfl

theorem optional_bool_of_rel {flag : Option Bool}
    (h : Option.Rel (kept name) (flag.map bool) (fs name)) :
    optional asBool fs name = .ok flag := by
  refine optional_of_rel h (by simp [asBool]) fun b _ wider hwider => ?_
  obtain rfl : bool b = wider := hwider
  rfl

theorem required_of_kept {α : Type} {decode : Decoder α} {value : Json} {x : α}
    (h : Option.Rel (kept name) (some value) (fs name)) (hdecode : decode value = .ok x) :
    required decode fs name = .ok x :=
  required_of_rel h fun _ hwider => hwider ▸ hdecode

theorem defaulting_of_kept {α : Type} {absent : α} {decode : Decoder α} {value : Json} {x : α}
    (h : Option.Rel (kept name) (some value) (fs name)) (hdecode : decode value = .ok x) :
    defaulting absent decode fs name = .ok x :=
  defaulting_of_rel h fun _ hwider => hwider ▸ hdecode

end

namespace Outcome

def Widened : Json → Json → Prop := Widens ["ok", "errorCode", "errorMessage"] kept

theorem decode_widened {o : Outcome} {value : Json} (h : Widened o.encode value) :
    decode value = .ok o := by
  have hnames : ((("ok", bool o.ok) :: memberOf? "errorCode" string o.errorCode ++
      memberOf? "errorMessage" string o.errorMessage).map Prod.fst).Sublist
        ["ok", "errorCode", "errorMessage"] := by
    simp only [List.cons_append, List.map_cons, List.map_append]
    exact ((map_fst_memberOf? ..).append (map_fst_memberOf? ..)).cons_cons _
  obtain ⟨fs, hfs, hrel⟩ := fields_widened h (hnames.nodup (by decide))
  have hok : required asBool fs "ok" = .ok o.ok :=
    required_of_kept (by simpa using hrel "ok" (by decide)) rfl
  have hcode : optional asString fs "errorCode" = .ok o.errorCode :=
    optional_string_of_rel (by simpa using hrel "errorCode" (by decide))
  have hmessage : optional asString fs "errorMessage" = .ok o.errorMessage :=
    optional_string_of_rel (by simpa using hrel "errorMessage" (by decide))
  simp only [decode, hfs, hok, hcode, hmessage, bind, Except.bind, pure, Except.pure]

theorem widened_refl (o : Outcome) : Widened o.encode o.encode := Widens.refl fun _ _ => rfl

end Outcome

namespace Fingerprint

def names : List String :=
  ["tagName", "role", "accessibleName", "id", "nameAttr", "typeAttr", "placeholder", "ariaLabel",
    "testId", "textSnippet"]

def Widened : Json → Json → Prop := Widens names kept

def members (f : Fingerprint) : List (String × Json) :=
  memberOf? "tagName" string f.tagName ++ memberOf? "role" string f.role ++
    memberOf? "accessibleName" string f.accessibleName ++ memberOf? "id" string f.id ++
    memberOf? "nameAttr" string f.nameAttr ++ memberOf? "typeAttr" string f.typeAttr ++
    memberOf? "placeholder" string f.placeholder ++ memberOf? "ariaLabel" string f.ariaLabel ++
    memberOf? "testId" string f.testId ++ memberOf? "textSnippet" string f.textSnippet

theorem names_members (f : Fingerprint) : (f.members.map Prod.fst).Sublist names := by
  have hnames : names = ["tagName"] ++ ["role"] ++ ["accessibleName"] ++ ["id"] ++ ["nameAttr"] ++
    ["typeAttr"] ++ ["placeholder"] ++ ["ariaLabel"] ++ ["testId"] ++ ["textSnippet"] := rfl
  rw [hnames]
  simp only [members, List.map_append]
  repeat' apply List.Sublist.append
  all_goals exact map_fst_memberOf? ..

theorem decode_widened {f : Fingerprint} {value : Json} (h : Widened f.encode value) :
    decode value = .ok f := by
  have hwidens : Widens names kept (object f.members) value := h
  obtain ⟨fs, hfs, hrel⟩ := fields_widened hwidens ((names_members f).nodup (by decide))
  have hfield (name : String) (text : Option String) (hname : name ∈ names)
      (hmember : member? name f.members = text.map string) :
      optional asString fs name = .ok text :=
    optional_string_of_rel (hmember ▸ hrel name hname)
  unfold names at hfs
  simp only [decode, hfs, bind, Except.bind, pure, Except.pure]
  rw [hfield "tagName" f.tagName (by decide) (by simp [members]),
    hfield "role" f.role (by decide) (by simp [members]),
    hfield "accessibleName" f.accessibleName (by decide) (by simp [members]),
    hfield "id" f.id (by decide) (by simp [members]),
    hfield "nameAttr" f.nameAttr (by decide) (by simp [members]),
    hfield "typeAttr" f.typeAttr (by decide) (by simp [members]),
    hfield "placeholder" f.placeholder (by decide) (by simp [members]),
    hfield "ariaLabel" f.ariaLabel (by decide) (by simp [members]),
    hfield "testId" f.testId (by decide) (by simp [members]),
    hfield "textSnippet" f.textSnippet (by decide) (by simp [members])]

theorem widened_refl (f : Fingerprint) : Widened f.encode f.encode := Widens.refl fun _ _ => rfl

end Fingerprint

namespace Validation

def Widened : Json → Json → Prop := Widens ["unique", "visible", "enabled"] kept

theorem decode_widened {v : Validation} {value : Json} (h : Widened v.encode value) :
    decode value = .ok v := by
  have hnames : ((("unique", bool v.unique) :: memberOf? "visible" bool v.visible ++
      memberOf? "enabled" bool v.enabled).map Prod.fst).Sublist ["unique", "visible", "enabled"] := by
    simp only [List.cons_append, List.map_cons, List.map_append]
    exact ((map_fst_memberOf? ..).append (map_fst_memberOf? ..)).cons_cons _
  obtain ⟨fs, hfs, hrel⟩ := fields_widened h (hnames.nodup (by decide))
  have hunique : defaulting false asBool fs "unique" = .ok v.unique :=
    defaulting_of_kept (by simpa using hrel "unique" (by decide)) rfl
  have hvisible : optional asBool fs "visible" = .ok v.visible :=
    optional_bool_of_rel (by simpa using hrel "visible" (by decide))
  have henabled : optional asBool fs "enabled" = .ok v.enabled :=
    optional_bool_of_rel (by simpa using hrel "enabled" (by decide))
  simp only [decode, hfs, hunique, hvisible, henabled, bind, Except.bind, pure, Except.pure]

theorem widened_refl (v : Validation) : Widened v.encode v.encode := Widens.refl fun _ _ => rfl

end Validation

namespace Locator

/-- What comes back for the members of a locator. -/
def related : String → Json → Json → Prop
  | "validation" => Validation.Widened
  | name => kept name

def Widened : Json → Json → Prop := Widens ["kind", "value", "code", "validation"] related

theorem decode_widened {l : Locator} {value : Json} (h : Widened l.encode value) :
    decode value = .ok l := by
  obtain ⟨fs, hfs, hrel⟩ := fields_widened h (by simp)
  have hkind : defaulting "" asString fs "kind" = .ok l.kind :=
    defaulting_of_kept (by simpa [related] using hrel "kind" (by decide)) rfl
  have hvalue : defaulting "" asString fs "value" = .ok l.value :=
    defaulting_of_kept (by simpa [related] using hrel "value" (by decide)) rfl
  have hcode : defaulting "" asString fs "code" = .ok l.code :=
    defaulting_of_kept (by simpa [related] using hrel "code" (by decide)) rfl
  have hvalidation : defaulting default Validation.decode fs "validation" = .ok l.validation :=
    defaulting_of_rel (by simpa [related] using hrel "validation" (by decide))
      fun _ hwider => Validation.decode_widened hwider
  simp only [decode, hfs, hkind, hvalue, hcode, hvalidation, bind, Except.bind, pure, Except.pure]

theorem decode_null (l : Locator) : decode null ≠ .ok l := by
  intro h
  cases h

theorem decode_widenedItems {ls : List Locator} {value : Json}
    (h : WidensItems Widened (array (ls.map encode)) value) : asList decode value = .ok ls := by
  cases h with
  | intro hitems =>
      rename_i wider
      show wider.mapM decode = .ok ls
      induction ls generalizing wider with
      | nil =>
          cases hitems
          rfl
      | cons l ls ih =>
          obtain ⟨value, rest, hvalue, hrest, rfl⟩ := List.forall₂_cons_left_iff.1 hitems
          rw [List.mapM_cons, decode_widened hvalue, ih hrest]
          rfl

theorem widened_refl (l : Locator) : Widened l.encode l.encode :=
  Widens.refl (by simp [related, kept, l.validation.widened_refl])

end Locator

namespace Element

/-- What comes back for the members of an element. -/
def related : String → Json → Json → Prop
  | "fingerprint" => Fingerprint.Widened
  | "locatorCandidates" => WidensItems Locator.Widened
  | "chosenLocator" => Locator.Widened
  | name => kept name

def Widened : Json → Json → Prop :=
  Widens ["fingerprint", "locatorCandidates", "chosenLocator"] related

theorem decode_widened {e : Element} {value : Json} (h : Widened e.encode value) :
    decode value = .ok e := by
  have hnames : ((("fingerprint", e.fingerprint.encode) ::
      ("locatorCandidates", array (e.candidates.map Locator.encode)) ::
      memberOf? "chosenLocator" Locator.encode e.chosen).map Prod.fst).Sublist
        ["fingerprint", "locatorCandidates", "chosenLocator"] :=
    ((map_fst_memberOf? ..).cons_cons _).cons_cons _
  obtain ⟨fs, hfs, hrel⟩ := fields_widened h (hnames.nodup (by decide))
  have hfingerprint : defaulting default Fingerprint.decode fs "fingerprint" = .ok e.fingerprint :=
    defaulting_of_rel (by simpa [related] using hrel "fingerprint" (by decide))
      fun _ hwider => Fingerprint.decode_widened hwider
  have hcandidates :
      defaulting [] (asList Locator.decode) fs "locatorCandidates" = .ok e.candidates :=
    defaulting_of_rel (by simpa [related] using hrel "locatorCandidates" (by decide))
      fun _ hwider => Locator.decode_widenedItems hwider
  have hchosen : optional Locator.decode fs "chosenLocator" = .ok e.chosen :=
    optional_of_rel (by simpa [related] using hrel "chosenLocator" (by decide)) Locator.decode_null
      fun _ _ _ hwider => Locator.decode_widened hwider
  simp only [decode, hfs, hfingerprint, hcandidates, hchosen, bind, Except.bind, pure, Except.pure]

theorem widened_refl (e : Element) : Widened e.encode e.encode := by
  refine Widens.refl ?_
  have hcandidates : WidensItems Locator.Widened (array (e.candidates.map Locator.encode))
      (array (e.candidates.map Locator.encode)) :=
    .intro (List.forall₂_same.2 fun value hvalue => by
      obtain ⟨l, -, rfl⟩ := List.mem_map.1 hvalue
      exact l.widened_refl)
  have hchosen (l : Locator) : Locator.Widened l.encode l.encode := l.widened_refl
  cases e.chosen <;>
    simp [related, memberOf?, hcandidates, hchosen, e.fingerprint.widened_refl]

theorem decode_null (e : Element) : decode null ≠ .ok e := by
  intro h
  cases h

end Element

namespace Record

/-- What comes back for the members of a record. -/
def related : String → Json → Json → Prop
  | "outcome" => Outcome.Widened
  | "element" => Element.Widened
  | name => kept name

/-- What a record may be written as by an agent that knows more members: in the record,
and in every record inside it, members may be added and stand in any order. -/
def Widened : Json → Json → Prop := Widens fieldNames related

def members (r : Record) : List (String × Json) :=
  [("runId", string r.runId), ("specPath", string r.specPath),
    ("stepIndex", (r.step.map fun (n : Nat) => integer n).getD null),
    ("toolName", string r.tool.name), ("toolInput", r.input.encode),
    ("outcome", r.outcome.encode)] ++
    memberOf? "element" Element.encode r.element ++ memberOf? "pageUrl" string r.pageUrl ++
    [("timestamp", integer r.timestamp)]

theorem names_members (r : Record) : (r.members.map Prod.fst).Sublist fieldNames := by
  have hnames : fieldNames = ["runId", "specPath", "stepIndex", "toolName", "toolInput", "outcome"] ++
    ["element"] ++ ["pageUrl"] ++ ["timestamp"] := rfl
  rw [hnames]
  simp only [members, List.map_append]
  exact (((List.Sublist.refl _).append (map_fst_memberOf? ..)).append
    (map_fst_memberOf? ..)).append (List.Sublist.refl _)

/-- A record that can be held: its numbers are bounded, and its input is plain JSON. -/
structure Fits (r : Record) : Prop where
  step : ∀ n ∈ r.step, n < 2 ^ 32
  input : plain? r.input.encode = some r.input.encode
  timestamp : -2 ^ 63 ≤ r.timestamp ∧ r.timestamp < 2 ^ 63

theorem decode_input {i : ToolInput} (h : plain? i.encode = some i.encode) :
    ToolInput.decode i.encode = .ok i := by
  have hobject : plain? (object i.members) = some (object i.members) := h
  show ToolInput.decode (object i.members) = _
  simp only [ToolInput.decode, hobject]

theorem optional_step {fs : Fields} {step : Option Nat} (hstep : ∀ n ∈ step, n < 2 ^ 32)
    (h : Option.Rel (kept "stepIndex")
      (some ((step.map fun (n : Nat) => integer n).getD null)) (fs "stepIndex")) :
    optional asNat32 fs "stepIndex" = .ok step := by
  unfold Json.optional
  cases hfs : fs "stepIndex" with
  | none => rw [hfs] at h; cases h
  | some value =>
      rw [hfs] at h
      cases h with
      | some hvalue =>
          obtain rfl : _ = value := hvalue
          cases step with
          | none => rfl
          | some n =>
              have hn := hstep n rfl
              have hmost : (Int.pow 2 32 : Int) = 2 ^ 32 := rfl
              have hread : asInteger 0 (Int.pow 2 32 - 1) (integer n) = .ok n := by
                rw [asInteger, if_pos (by omega)]
              show (asNat32 (integer n)).map some = _
              simp only [asNat32, hread, Except.map, Int.toNat_natCast]

theorem decode_widened {r : Record} (hfits : r.Fits) (htool : ∃ name, r.tool = Tool.ofName name)
    {value : Json} (h : Widened r.encode value) : decode value = .ok r := by
  have hwidens : Widens fieldNames related (object r.members) value := h
  obtain ⟨fs, hfs, hrel⟩ := fields_widened hwidens ((names_members r).nodup (by decide))
  have hrunId : defaulting "" asString fs "runId" = .ok r.runId :=
    defaulting_of_kept (by simpa [related, members] using hrel "runId" (by decide)) rfl
  have hspecPath : defaulting "" asString fs "specPath" = .ok r.specPath :=
    defaulting_of_kept (by simpa [related, members] using hrel "specPath" (by decide)) rfl
  have hstep : optional asNat32 fs "stepIndex" = .ok r.step :=
    optional_step hfits.step (by simpa [related, members] using hrel "stepIndex" (by decide))
  have hname : required asString fs "toolName" = .ok r.tool.name :=
    required_of_kept (by simpa [related, members] using hrel "toolName" (by decide)) rfl
  have hinput : defaulting ToolInput.empty ToolInput.decode fs "toolInput" = .ok r.input :=
    defaulting_of_kept (by simpa [related, members] using hrel "toolInput" (by decide))
      (decode_input hfits.input)
  have houtcome : required Outcome.decode fs "outcome" = .ok r.outcome :=
    required_of_rel (by simpa [related, members] using hrel "outcome" (by decide))
      fun _ hwider => Outcome.decode_widened hwider
  have helement : optional Element.decode fs "element" = .ok r.element :=
    optional_of_rel (by simpa [related, members] using hrel "element" (by decide))
      Element.decode_null fun _ _ _ hwider => Element.decode_widened hwider
  have hpageUrl : optional asString fs "pageUrl" = .ok r.pageUrl :=
    optional_string_of_rel (by simpa [related, members] using hrel "pageUrl" (by decide))
  have htime : defaulting 0 (asInteger (-Int.pow 2 63) (Int.pow 2 63 - 1)) fs "timestamp" =
      .ok r.timestamp := by
    refine defaulting_of_kept (by simpa [related, members] using hrel "timestamp" (by decide)) ?_
    have hleast : (-Int.pow 2 63 : Int) = -2 ^ 63 := rfl
    have hmost : (Int.pow 2 63 : Int) = 2 ^ 63 := rfl
    obtain ⟨hle, hlt⟩ := hfits.timestamp
    rw [asInteger, if_pos (by omega)]
  obtain ⟨name, htool⟩ := htool
  have hread : Tool.ofName r.tool.name = r.tool := by rw [htool, Tool.name_ofName]
  simp only [decode, hfs, hrunId, hspecPath, hstep, hname, hinput, houtcome, helement, hpageUrl,
    htime, hread, bind, Except.bind, pure, Except.pure]

/-! ### Records that are read -/

theorem plain?_of_decode_input {value : Json} {i : ToolInput}
    (h : ToolInput.decode value = .ok i) : plain? i.encode = some i.encode := by
  unfold ToolInput.decode at h
  split at h
  · cases h
    rfl
  · split at h
    · rename_i members hplain
      cases h
      exact plain?_of_plain? hplain
    · cases h

theorem lt_of_asNat32 {value : Json} {n : Nat} (h : asNat32 value = .ok n) : n < 2 ^ 32 := by
  unfold asNat32 asInteger at h
  have hmost : (Int.pow 2 32 : Int) = 2 ^ 32 := rfl
  split at h
  · split at h
    · cases h
      omega
    · cases h
  · cases h

theorem bounds_of_asInteger {least most n : Int} {value : Json}
    (h : asInteger least most value = .ok n) : least ≤ n ∧ n ≤ most := by
  unfold asInteger at h
  split at h
  · split at h
    · rename_i hbounds
      cases h
      exact hbounds
    · cases h
  · cases h

theorem bind_eq_ok {α β : Type} {x : Except Fault α} {f : α → Except Fault β} {b : β} :
    x >>= f = .ok b ↔ ∃ a, x = .ok a ∧ f a = .ok b := by
  cases x with
  | error fault => simp [bind, Except.bind]
  | ok a => simp [bind, Except.bind]

theorem fits_of_decode {value : Json} {r : Record} (h : decode value = .ok r) :
    r.Fits ∧ ∃ name, r.tool = Tool.ofName name := by
  simp only [decode, bind_eq_ok] at h
  obtain ⟨fs, -, runId, -, specPath, -, step, hstep, name, -, input, hinput, outcome, -, element, -,
    pageUrl, -, timestamp, htime, h⟩ := h
  cases h
  refine ⟨⟨?_, ?_, ?_⟩, name, rfl⟩
  · rintro n ⟨⟩
    unfold Json.optional at hstep
    split at hstep
    · cases hstep
    · cases hstep
    · rename_i value _ _
      cases hread : asNat32 value with
      | error fault => rw [hread] at hstep; cases hstep
      | ok m =>
          rw [hread] at hstep
          cases hstep
          exact lt_of_asNat32 hread
  · unfold defaulting at hinput
    split at hinput
    · cases hinput
      rfl
    · exact plain?_of_decode_input hinput
  · show -2 ^ 63 ≤ timestamp ∧ timestamp < 2 ^ 63
    have hpow : (Int.pow 2 63 : Int) = 2 ^ 63 := rfl
    unfold defaulting at htime
    split at htime
    · cases htime
      omega
    · have := bounds_of_asInteger htime
      omega

/-! ### Writing and reading -/

theorem widened_refl (r : Record) : Widened r.encode r.encode := by
  refine Widens.refl ?_
  have helement (e : Element) : Element.Widened e.encode e.encode := e.widened_refl
  have houtcome : Outcome.Widened r.outcome.encode r.outcome.encode := r.outcome.widened_refl
  cases r.element <;> cases r.pageUrl <;> simp [related, kept, memberOf?, helement, houtcome]

/-- A record is read as it was written, also where members that are not known have been added and
members stand in another order. Whatever is read is such a record. -/
theorem decode_written :
    (∀ r : Record, r.Fits → (∃ name, r.tool = Tool.ofName name) →
      decode r.encode = .ok r ∧ ∀ value, Widened r.encode value → decode value = .ok r) ∧
      (∀ value r, decode value = .ok r → r.Fits ∧ ∃ name, r.tool = Tool.ofName name) ∧
      ∀ name, (Tool.ofName name).name = name :=
  ⟨fun r hfits htool => ⟨decode_widened hfits htool (widened_refl r),
    fun _ => decode_widened hfits htool⟩, fun _ _ => fits_of_decode, Tool.name_ofName⟩

/-- A click on a menu. -/
def menuRecord : Record where
  runId := "r"
  specPath := "specs/menu.md"
  step := some 2
  tool := .click
  input := ⟨[("button", .string "left")]⟩
  outcome := ⟨true, none, none⟩
  element := some {
    fingerprint := { (default : Fingerprint) with testId := some "menu" }
    candidates := []
    chosen := some ⟨"css", "#menu", "page.locator('#menu')", ⟨true, none, some true⟩⟩ }
  pageUrl := none
  timestamp := 1700000000000

def menuLocatorWidened : Json :=
  object [("strict", bool true),
    ("validation", object [("count", integer 1), ("enabled", bool true), ("unique", bool true)]),
    ("code", string "page.locator('#menu')"), ("value", string "#menu"), ("kind", string "css")]

def menuElementWidened : Json :=
  object [("shadow", null), ("chosenLocator", menuLocatorWidened), ("locatorCandidates", array []),
    ("fingerprint", object [("classes", array []), ("testId", string "menu")])]

/-- The same click as an agent writes it that knows one more member of each record, and writes all
members the other way round. -/
def menuRecordWidened : Json :=
  object [("agent", string "2.0"), ("timestamp", integer 1700000000000),
    ("element", menuElementWidened),
    ("outcome", object [("retries", integer 0), ("ok", bool true)]),
    ("toolInput", object [("button", string "left")]), ("toolName", string "click"),
    ("stepIndex", integer 2), ("specPath", string "specs/menu.md"), ("runId", string "r")]

theorem widened_menuRecord : Widened menuRecord.encode menuRecordWidened := by
  have hreverse {names : List String} {rel : String → Json → Json → Prop}
      {members wider : List (String × Json)} (kept extra : List (String × Json))
      (hrelated : List.Forall₂ (fun m k => m.1 = k.1 ∧ rel m.1 m.2 k.2) members kept)
      (hextra : ∀ m ∈ extra, m.1 ∉ names) (hwider : wider = (kept ++ extra).reverse) :
      Widens names rel (object members) (object wider) :=
    .intro hrelated hextra (hwider ▸ List.reverse_perm _)
  have hvalidation : Validation.Widened (object [("unique", bool true), ("enabled", bool true)])
      (object [("count", integer 1), ("enabled", bool true), ("unique", bool true)]) :=
    hreverse [("unique", bool true), ("enabled", bool true)] [("count", integer 1)]
      (List.forall₂_same.2 fun _ _ => ⟨rfl, rfl⟩) (by simp) rfl
  have hlocator : Locator.Widened
      (Locator.encode ⟨"css", "#menu", "page.locator('#menu')", ⟨true, none, some true⟩⟩)
      menuLocatorWidened :=
    hreverse
      [("kind", string "css"), ("value", string "#menu"), ("code", string "page.locator('#menu')"),
        ("validation", object [("count", integer 1), ("enabled", bool true), ("unique", bool true)])]
      [("strict", bool true)]
      (.cons ⟨rfl, rfl⟩ (.cons ⟨rfl, rfl⟩ (.cons ⟨rfl, rfl⟩ (.cons ⟨rfl, hvalidation⟩ .nil))))
      (by simp) rfl
  have hfingerprint : Fingerprint.Widened (object [("testId", string "menu")])
      (object [("classes", array []), ("testId", string "menu")]) :=
    hreverse [("testId", string "menu")] [("classes", array [])]
      (List.forall₂_same.2 fun _ _ => ⟨rfl, rfl⟩) (by decide) rfl
  have hcandidates : WidensItems Locator.Widened (array []) (array []) := .intro .nil
  have helement : Element.Widened (menuRecord.element.map Element.encode).get! menuElementWidened :=
    hreverse
      [("fingerprint", object [("classes", array []), ("testId", string "menu")]),
        ("locatorCandidates", array []), ("chosenLocator", menuLocatorWidened)]
      [("shadow", null)]
      (.cons ⟨rfl, hfingerprint⟩ (.cons ⟨rfl, hcandidates⟩ (.cons ⟨rfl, hlocator⟩ .nil)))
      (by simp) rfl
  have houtcome : Outcome.Widened (object [("ok", bool true)])
      (object [("retries", integer 0), ("ok", bool true)]) :=
    hreverse [("ok", bool true)] [("retries", integer 0)]
      (List.forall₂_same.2 fun _ _ => ⟨rfl, rfl⟩) (by simp) rfl
  exact hreverse
    [("runId", string "r"), ("specPath", string "specs/menu.md"), ("stepIndex", integer 2),
      ("toolName", string "click"), ("toolInput", object [("button", string "left")]),
      ("outcome", object [("retries", integer 0), ("ok", bool true)]),
      ("element", menuElementWidened), ("timestamp", integer 1700000000000)]
    [("agent", string "2.0")]
    (.cons ⟨rfl, rfl⟩ (.cons ⟨rfl, rfl⟩ (.cons ⟨rfl, rfl⟩ (.cons ⟨rfl, rfl⟩ (.cons ⟨rfl, rfl⟩
      (.cons ⟨rfl, houtcome⟩ (.cons ⟨rfl, helement⟩ (.cons ⟨rfl, rfl⟩ .nil))))))))
    (by simp [fieldNames]) rfl

theorem decode_written_menuRecord :
    menuRecord.Fits ∧ Widened menuRecord.encode menuRecordWidened ∧
      decode menuRecordWidened = .ok menuRecord := by
  have hfits : menuRecord.Fits := ⟨by simp [menuRecord], rfl, by simp [menuRecord]⟩
  have htool : ∃ name, menuRecord.tool = Tool.ofName name := ⟨"click", rfl⟩
  exact ⟨hfits, widened_menuRecord, (decode_written.1 menuRecord hfits htool).2 _ widened_menuRecord⟩

end Record

end TraceExport.Trace
