import TraceExport.Proofs.Declaration
import TraceExport.Proofs.Generated

/-!
Statements that declare nothing, and whether they pass unchanged when names are
made distinct. The declaration is looked for in all of the code, in literals and
comments too, so it comes down to the texts that a statement inserts: the first
declaration found in its code is the first one found in one of these
(`declaredName?_code`).
-/

namespace TraceExport.Script

open Text

/-! ### What a statement inserts -/

/-- The texts in an expression, as they are written. -/
def Expr.writings : Expr → List String
  | binding var => [variableName var]
  | literal value => [escapeQuoted value]
  | template pieces => [String.ofList (pieces.flatMap pieceText)]
  | onAddress path var => [escapeQuoted path, variableName var]

namespace Statement

/-- The texts in a statement besides its locator, as they are written. -/
def writings : Statement → List String
  | goto e | expectText e | expectNthText _ e _ => e.writings
  | fill _ e note => e.writings ++ note.toList
  | selectOption _ label => [escapeQuoted label]
  | todo what => [what]
  | click _ | expectElement _ _ | pause _ | nothing => []

end Statement

/-! ### Where a declaration is found -/

theorem declaredName?_quoted (value : String) :
    declaredName? (quoted value) = declaredName? (escapeQuoted value) := by
  show declaredName? ("'" ++ escapeQuoted value ++ "'") = _
  rw [declaredName?_append_closing (by decide), declaredName?_opening_append (by decide)]

theorem declaredName?_expr (e : Expr) :
    declaredName? e.text = e.writings.findSome? declaredName? := by
  cases e with
  | binding var =>
      rw [Expr.writings, List.findSome?_singleton]
      rfl
  | literal value =>
      rw [Expr.writings, List.findSome?_singleton, ← declaredName?_quoted]
      rfl
  | template pieces =>
      have hshape : (Expr.template pieces).text =
          "\x60" ++ String.ofList (pieces.flatMap Expr.pieceText) ++ "\x60" := by
        apply String.toList_injective
        simp [Expr.text, backquote]
      rw [hshape, declaredName?_append_closing (by decide),
        declaredName?_opening_append (by decide), Expr.writings, List.findSome?_singleton]
  | onAddress path var =>
      show declaredName? ("new URL(" ++ quoted path ++ ", " ++ variableName var ++
        ").toString()") = _
      rw [declaredName?_append_closing (by decide), String.append_assoc, String.append_assoc,
        declaredName?_opening_append (by decide),
        declaredName?_append_gap (by decide) (by decide), declaredName?_quoted, Expr.writings,
        List.findSome?_cons, List.findSome?_singleton]
      cases declaredName? (escapeQuoted path) <;> rfl

/-- The locator of an action is left out of the search. -/
theorem declaredName?_action {locator method : String} (h : ¬ "const".toList <:+: locator.toList)
    (hclose : IsClosing method) (hopen : IsOpening method) (rest : String) :
    declaredName? ("  await " ++ (locator ++ (method ++ rest))) = declaredName? rest := by
  have hnone : declaredName? locator = none :=
    declaredName?_eq_none_iff.2 (firstDeclaration?_eq_none_of_no_const h)
  rw [declaredName?_opening_append (by decide), declaredName?_append_gap hclose hopen, hnone,
    Option.none_or]

/-- Where a statement declares nothing, a declaration can only be found in a text
that it inserts. -/
theorem Statement.declaredName?_code {s : Statement} (hs : s.binding? = none)
    (hlocator : ∀ locator, s.locator? = some locator → ¬ "const".toList <:+: locator.toList) :
    declaredName? s.code = s.writings.findSome? declaredName? := by
  -- All that surrounds the texts cuts them off: brackets, quotation marks, colons.
  cases s with
  | goto e =>
      show declaredName? ("  await page.goto(" ++ e.text ++ ");") = _
      rw [declaredName?_append_closing (by decide), declaredName?_opening_append (by decide)]
      exact declaredName?_expr e
  | click locator =>
      show declaredName? ("  await " ++ locator ++ (".click();" ++ "")) = _
      rw [String.append_assoc, declaredName?_action (hlocator _ rfl) (by decide) (by decide)]
      rfl
  | fill locator e note =>
      rw [writings, List.findSome?_append, ← declaredName?_expr]
      cases note with
      | none =>
          show declaredName? ("  await " ++ locator ++ ".fill(" ++ e.text ++ ");" ++ "") = _
          simp only [String.append_assoc]
          rw [declaredName?_action (hlocator _ rfl) (by decide) (by decide),
            declaredName?_append_closing (by decide)]
          exact Option.or_none.symm
      | some note =>
          show declaredName? ("  await " ++ locator ++ ".fill(" ++ e.text ++ ");" ++
            (" // TODO: " ++ note)) = _
          simp only [String.append_assoc]
          rw [declaredName?_action (hlocator _ rfl) (by decide) (by decide),
            declaredName?_append_gap (by decide) (by decide),
            declaredName?_opening_append (by decide), Option.toList_some, List.findSome?_singleton]
  | selectOption locator label =>
      show declaredName? ("  await " ++ locator ++ ".selectOption(\x7b label: " ++
        ("'" ++ escapeQuoted label ++ "'") ++ " \x7d);") = _
      simp only [String.append_assoc]
      rw [declaredName?_action (hlocator _ rfl) (by decide) (by decide),
        declaredName?_opening_append (by decide), declaredName?_append_closing (by decide),
        writings, List.findSome?_singleton]
  | expectText e =>
      show declaredName? ("  await expect(" ++ ("page.getByText(" ++ e.text ++ ")" ++ ".first()") ++
        ")." ++ "toBeVisible()" ++ ";") = _
      simp only [String.append_assoc]
      rw [declaredName?_opening_append (by decide), declaredName?_opening_append (by decide),
        declaredName?_append_closing (by decide)]
      exact declaredName?_expr e
  | expectNthText name e nth => simp [binding?] at hs
  | expectElement name locator => simp [binding?] at hs
  | pause milliseconds =>
      show declaredName? ("  await page.waitForTimeout(" ++ toString milliseconds ++ ");") = _
      rw [declaredName?_append_closing (by decide), declaredName?_opening_append (by decide)]
      apply declaredName?_eq_none_of_no_equals
      intro hmem
      exact ne_of_isIdentChar ((isWord_toString milliseconds).letters _ hmem) rfl rfl
  | todo what =>
      show declaredName? ("  // TODO: " ++ what) = _
      rw [declaredName?_opening_append (by decide), writings, List.findSome?_singleton]
  | nothing => rfl

/-- A statement that declares nothing passes unchanged, and takes no name, iff no
text that it inserts looks like a declaration where it is written. -/
theorem Statement.distinguish_code_eq_self_iff {s : Statement} (hs : s.binding? = none)
    (hlocator : ∀ locator, s.locator? = some locator → ¬ "const".toList <:+: locator.toList)
    (r : Registry) :
    distinguish s.code r = (s.code, r) ↔ ∀ text ∈ s.writings, declaredName? text = none := by
  rw [distinguish_eq_self_iff, declaredName?_code hs hlocator, List.findSome?_eq_none_iff]

theorem Statement.distinguish_code_eq_self_iff_greeting :
    (fill "page.locator('#q')" (.literal "Hello") none).binding? = none ∧
      ¬ "const".toList <:+: "page.locator('#q')".toList ∧
        distinguish (fill "page.locator('#q')" (.literal "Hello") none).code (.seeded ["user"]) =
          ((fill "page.locator('#q')" (.literal "Hello") none).code, .seeded ["user"]) := by
  have hlocator : ¬ "const".toList <:+: "page.locator('#q')".toList := by decide +kernel
  refine ⟨rfl, hlocator, (distinguish_code_eq_self_iff rfl ?_ _).2 (by decide +kernel)⟩
  rintro locator ⟨⟩
  exact hlocator

/-- A user who types a declaration into a search box. -/
def typedDeclaration : Trace.Record where
  runId := "run-1"
  specPath := "specs/a.md"
  step := some 1
  tool := .fill
  input := ⟨[("fillValue", .object
    [("kind", .string "literal"), ("value", .string "const page = 1")])]⟩
  outcome := ⟨true, none, none⟩
  element := some ⟨default, [], some ⟨"css", "#q", "page.locator('#q')", ⟨true, none, none⟩⟩⟩
  pageUrl := none
  timestamp := 0

/-- A text that is typed can look like a declaration of the page. Then the page
itself is renamed, and the statement refers to a name that nothing declares. -/
theorem distinguish_typedDeclaration :
    ∃ s, Replay.generate typedDeclaration ⟨"https://app.test", none, none⟩ = .ok s ∧
      s.binding? = none ∧ s.locator? = some "page.locator('#q')" ∧
        ¬ "const".toList <:+: "page.locator('#q')".toList ∧
          distinguish s.code (.seeded []) =
            ("  await page2.locator('#q').fill('const page = 1');", ⟨"page2" :: fileBindings⟩) :=
  ⟨.fill "page.locator('#q')" (.literal "const page = 1") none, by decide +kernel, rfl, rfl,
    by decide +kernel, by decide +kernel⟩

end TraceExport.Script
