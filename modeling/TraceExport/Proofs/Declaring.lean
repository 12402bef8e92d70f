import TraceExport.Proofs.Declaration
import TraceExport.Proofs.Generated
import TraceExport.Proofs.Literal
import TraceExport.Proofs.Renaming

/-!
Statements that declare a name, and what becomes of their code when names are
made distinct. The name that is found in the code is the one that is declared. If
it is taken, it is renamed all over the code, and that gives the statement with
the new name in its place just in case the name is no other word of the code.
For a text, the other words are those of the page's methods; for an element, the
recorded locator has words of its own.
-/

namespace TraceExport.Script

open Text Lexeme

namespace Statement

/-- The code that the name is bound to. -/
def value : Statement → String
  | expectNthText _ text _ => "page.getByText(" ++ text.text ++ ")"
  | expectElement _ locator => locator
  | _ => ""

/-- The code between the uses of the name. -/
def uses : Statement → List String
  | expectNthText _ _ nth => ["  await expect(", ".nth(" ++ toString nth ++ ")).toBeVisible();"]
  | expectElement _ _ =>
    ["  await expect(", ").toHaveCount(1);\n  await expect(", ").toBeVisible();"]
  | _ => []

/-- A name that is no other word of the statement, and that no literal of the
statement hides. -/
def IsApart (name : String) : Statement → Prop
  | expectNthText _ _ _ => name ∉ ["page", "getByText", "expect", "nth", "toBeVisible"]
  | expectElement _ locator =>
    name ∉ ["expect", "toHaveCount", "toBeVisible"] ∧
      word name.toList ∉ lexemes (some '=') (some ' ') (locator.toList ++ lineEnd []) ∧
        IsClosedLine (some '=') (some ' ') locator.toList
  | _ => True

@[simp] theorem value_rebind (s : Statement) (name : String) :
    (s.rebind name).value = s.value := by
  cases s <;> rfl

@[simp] theorem uses_rebind (s : Statement) (name : String) :
    (s.rebind name).uses = s.uses := by
  cases s <;> rfl

theorem toList_code {s : Statement} {name : String} (h : s.binding? = some name) :
    s.code.toList = declaring name.toList s.value.toList (s.uses.map String.toList) := by
  cases s with
  | expectNthText n text nth =>
      obtain rfl : n = name := by simpa [binding?] using h
      show ("  const " ++ n ++ " = " ++ ("page.getByText(" ++ text.text ++ ")") ++ ";" ++ "\n" ++
        ("  await expect(" ++ (n ++ ".nth(" ++ toString nth ++ ")") ++ ")." ++ "toBeVisible()" ++
          ";")).toList = "  const ".toList ++ n.toList ++ " = ".toList ++
            ("page.getByText(" ++ text.text ++ ")").toList ++ lineEnd ("  await expect(".toList ++
              n.toList ++ (".nth(" ++ toString nth ++ ")).toBeVisible();").toList)
      simp
  | expectElement n locator =>
      obtain rfl : n = name := by simpa [binding?] using h
      show ("  const " ++ n ++ " = " ++ locator ++ ";" ++ "\n" ++
        ("  await expect(" ++ n ++ ")." ++ "toHaveCount(1)" ++ ";") ++ "\n" ++
          ("  await expect(" ++ n ++ ")." ++ "toBeVisible()" ++ ";")).toList =
        "  const ".toList ++ n.toList ++ " = ".toList ++ locator.toList ++
          lineEnd ("  await expect(".toList ++ n.toList ++
            (").toHaveCount(1);\n  await expect(".toList ++ n.toList ++ ").toBeVisible();".toList))
      simp
  | _ => simp [binding?] at h

/-! ### The words between the uses -/

theorem ne_toString_of_isBindable {name : String} (h : IsBindable name) (n : Nat) :
    name ≠ toString n := by
  rintro rfl
  obtain ⟨c, s, hname, hletter⟩ := h.opens
  have hdigit : c.isDigit := isDigit_of_mem_toString (by rw [hname]; exact List.mem_cons_self)
  rcases hletter with hletter | rfl
  · rw [isAlpha_iff] at hletter
    rw [isDigit_iff] at hdigit
    omega
  · simp at hdigit

theorem chop_nth (nth : Nat) :
    chop (".nth(" ++ toString nth ++ ")).toBeVisible();").toList =
      [copied ['.'], word "nth".toList, copied ['('], word (toString nth).toList, copied [')'],
        copied [')'], copied ['.'], word "toBeVisible".toList, copied ['('], copied [')'],
        copied [';']] := by
  have hclose : chop ")).toBeVisible();".toList = [copied [')'], copied [')'], copied ['.'],
      word "toBeVisible".toList, copied ['('], copied [')'], copied [';']] := by decide
  have hopen : chop ".nth(".toList = [copied ['.'], word "nth".toList, copied ['(']] := by decide
  rw [String.toList_append, String.toList_append, List.append_assoc,
    chop_append_of_last rfl, chop_append rfl, chop_word (isWord_toString nth), hclose, hopen]
  rfl

theorem isSpacer_of_mem_uses {s : Statement} : ∀ p ∈ s.uses.map String.toList, IsSpacer p := by
  intro p hp
  obtain ⟨part, hpart, rfl⟩ := List.mem_map.1 hp
  cases s with
  | expectNthText name text nth =>
      simp only [uses, List.mem_cons, List.not_mem_nil, or_false] at hpart
      rcases hpart with rfl | rfl
      · decide
      · rw [String.toList_append, String.toList_append]
        exact IsSpacer.append_word (by decide) (isWord_toString nth) (by decide)
  | expectElement name locator =>
      simp only [uses, List.mem_cons, List.not_mem_nil, or_false] at hpart
      rcases hpart with rfl | rfl | rfl <;> decide
  | _ => simp [uses] at hpart

theorem word_toList_inj {v w : String} : word v.toList = word w.toList ↔ v = w := by
  rw [word.injEq, String.toList_inj]

theorem chop_open : chop "  await expect(".toList = [copied [' '], copied [' '],
    word "await".toList, copied [' '], word "expect".toList, copied ['(']] := by
  decide

theorem free_uses_text {name : String} (h : IsBindable name) (n : String) (text : Expr)
    (nth : Nat) :
    (∀ p ∈ (expectNthText n text nth).uses.map String.toList, word name.toList ∉ chop p) ↔
      name ∉ ["expect", "nth", "toBeVisible"] := by
  have hawait : name ≠ "await" := fun heq => h.not_mem_reservedWords (by rw [heq]; decide)
  have hdigits := ne_toString_of_isBindable h nth
  rw [uses, List.map_cons, List.map_singleton, List.forall_mem_cons, List.forall_mem_singleton,
    chop_open, chop_nth]
  simp only [List.mem_cons, List.not_mem_nil, reduceCtorEq, word_toList_inj, hawait, hdigits,
    false_or, or_false, not_or]

theorem free_uses_element {name : String} (h : IsBindable name) (n locator : String) :
    (∀ p ∈ (expectElement n locator).uses.map String.toList, word name.toList ∉ chop p) ↔
      name ∉ ["expect", "toHaveCount", "toBeVisible"] := by
  have hmiddle : chop ").toHaveCount(1);\n  await expect(".toList =
      [copied [')'], copied ['.'], word "toHaveCount".toList, copied ['('], word "1".toList,
        copied [')'], copied [';'], copied ['\n'], copied [' '], copied [' '],
        word "await".toList, copied [' '], word "expect".toList, copied ['(']] := by decide
  have hclose : chop ").toBeVisible();".toList = [copied [')'], copied ['.'],
      word "toBeVisible".toList, copied ['('], copied [')'], copied [';']] := by decide
  have hawait : name ≠ "await" := fun heq => h.not_mem_reservedWords (by rw [heq]; decide)
  have hdigit : name ≠ "1" := ne_toString_of_isBindable h 1
  rw [uses, List.map_cons, List.map_cons, List.map_singleton, List.forall_mem_cons,
    List.forall_mem_cons, List.forall_mem_singleton, chop_open, hmiddle, hclose]
  simp only [List.mem_cons, List.not_mem_nil, reduceCtorEq, word_toList_inj, hawait, hdigit,
    false_or, or_false, not_or]
  constructor
  · rintro ⟨hexpect, ⟨hcount, -⟩, hvisible⟩
    exact ⟨hexpect, hcount, hvisible⟩
  · rintro ⟨hexpect, hcount, hvisible⟩
    exact ⟨hexpect, ⟨hcount, hexpect⟩, hvisible⟩

/-! ### The words of the value -/

/-- The text that a page is searched for is one lexeme, and no other name than the
binding of a variable. -/
theorem lexemes_argument {s : Statement} (hs : s.IsDeclaring) {n : String} {e : Expr} {nth : Nat}
    (hshape : s = expectNthText n e nth) : ∃ l, l ≠ word n.toList ∧
      ∀ t, lexemes (some '(') (some '(') (e.text.toList ++ ')' :: t) =
        l :: copied [')'] :: lexemes (some ')') (some ')') t := by
  cases hs with
  | element f locator => simp at hshape
  | text text nth =>
      obtain ⟨rfl, rfl, rfl⟩ := by simpa using hshape
      refine ⟨copied (quoted text).toList, by simp, fun t => ?_⟩
      show lexemes _ _ ((quoted text).toList ++ ')' :: t) = _
      rw [lexemes_quoted, lexemes_char rfl (by decide) rfl]
      rfl
  | symbolic he nth =>
      obtain ⟨rfl, rfl, rfl⟩ := by simpa using hshape
      cases he with
      | @binding var hvar =>
          have hword := (isBindable_variableName hvar).isWord
          refine ⟨word (variableName var).toList, ?_, fun t => ?_⟩
          · intro heq
            exact variablesName_ne_variableName _ var (word_toList_inj.1 heq).symm
          · show lexemes _ _ ((variableName var).toList ++ ')' :: t) = _
            rw [lexemes_word hword rfl rfl, lexemes_char rfl (by decide) rfl]
            rfl
      | @template pieces hvars =>
          refine ⟨copied (Expr.template pieces).text.toList, by simp, fun t => ?_⟩
          rw [lexemes_template hvars, lexemes_char rfl (by decide) rfl]
          rfl

theorem lexemes_textValue {s : Statement} (hs : s.IsDeclaring) {n : String} {e : Expr} {nth : Nat}
    (hshape : s = expectNthText n e nth) : ∃ l, l ≠ word n.toList ∧
      lexemes (some '=') (some ' ') (s.value.toList ++ lineEnd []) =
        [word "page".toList, copied ['.'], word "getByText".toList, copied ['('], l,
          copied [')'], copied [';'], copied ['\n']] := by
  obtain ⟨l, hl, hscan⟩ := lexemes_argument hs hshape
  refine ⟨l, hl, ?_⟩
  have hopen : chop "page.getByText(".toList =
      [word "page".toList, copied ['.'], word "getByText".toList, copied ['(']] := by decide
  have hvalue : s.value.toList ++ lineEnd [] =
      "page.getByText".toList ++ '(' :: (e.text.toList ++ ')' :: lineEnd []) := by
    rw [hshape]
    show ("page.getByText(" ++ e.text ++ ")").toList ++ lineEnd [] = _
    simp
  have hend : lexemes (some ')') (some ')') (lineEnd []) = [copied [';'], copied ['\n']] := by
    rw [lexemes_char rfl (by decide) rfl, lexemes_char rfl (by decide) rfl, lexemes]
  have hpage : "page.getByText(".toList = "page.getByText".toList ++ ['('] := rfl
  have hseen : lastVisible (some '=') ("page.getByText".toList ++ ['(']) = some '(' := by
    rw [lastVisible_append]
    rfl
  rw [hvalue, lexemes_plain_append (by decide) rfl rfl, ← hpage, hopen, hpage, hseen, hscan, hend]
  rfl

/-- The name is no other word of the statement iff it is found neither in the value
nor between the uses, and the line of the value ends where it should. -/
theorem isApart_iff {s : Statement} (hs : s.IsDeclaring) {name : String}
    (hname : s.binding? = some name) :
    s.IsApart name ↔ IsClosedLine (some '=') (some ' ') s.value.toList ∧
      word name.toList ∉ lexemes (some '=') (some ' ') (s.value.toList ++ lineEnd []) ∧
        ∀ p ∈ s.uses.map String.toList, word name.toList ∉ chop p := by
  have hbind := isBindable_of_isDeclaring hs hname
  cases hshape : s with
  | expectNthText n e nth =>
      obtain rfl : n = name := by simpa [hshape, binding?] using hname
      obtain ⟨l, hl, hscan⟩ := lexemes_textValue hs hshape
      rw [← hshape, IsClosedLine, hscan, hshape, free_uses_text hbind]
      simp only [IsApart, List.mem_cons, List.not_mem_nil, reduceCtorEq, word_toList_inj, hl.symm,
        false_or, or_false, not_or]
      constructor
      · rintro ⟨hpage, hget, huses⟩
        exact ⟨rfl, ⟨hpage, hget⟩, huses⟩
      · rintro ⟨-, ⟨hpage, hget⟩, huses⟩
        exact ⟨hpage, hget, huses⟩
  | expectElement n locator =>
      obtain rfl : n = name := by simpa [hshape, binding?] using hname
      rw [free_uses_element hbind]
      constructor
      · rintro ⟨huses, hvalue, hclosed⟩
        exact ⟨hclosed, hvalue, huses⟩
      · rintro ⟨hclosed, hvalue, huses⟩
        exact ⟨huses, hvalue, hclosed⟩
  | _ => simp [hshape, binding?] at hname

end Statement

/-! ### The name that is found -/

structure IsIdentifier (w : List Char) : Prop where
  isWord : IsWord w
  starts : ∃ c s, w = c :: s ∧ isIdentStart c

theorem IsBindable.isIdentifier {name : String} (h : IsBindable name) :
    IsIdentifier name.toList :=
  ⟨h.isWord, h.isIdentStart_head⟩

theorem declarationAt?_const {w : List Char} (hw : IsIdentifier w) (rest : List Char) :
    declarationAt? ("const".toList ++ ' ' :: (w ++ ' ' :: '=' :: rest)) = some w := by
  obtain ⟨hword, c, s, rfl, hc⟩ := hw
  have hblank := isBlank_of_isIdentChar (hword.letters c List.mem_cons_self)
  have hends : endsWord (' ' :: '=' :: rest).head? := rfl
  have htrim : trimStart (' ' :: (c :: s ++ ' ' :: '=' :: rest)) =
      c :: s ++ ' ' :: '=' :: rest := by
    have hspace : isBlank ' ' := rfl
    simp [trimStart, hspace, hblank]
  have hequals : trimStart (' ' :: '=' :: rest) = '=' :: rest := by
    have hspace : isBlank ' ' := rfl
    have heq : isBlank '=' = false := rfl
    simp [trimStart, hspace, heq]
  simp only [declarationAt?, dropPrefix?_append, htrim, takeWhile_word hword.letters hends,
    dropWhile_word hword.letters hends, hequals]
  simp [hc]

theorem firstDeclaration?_declaring {w : List Char} (hw : IsIdentifier w) (rest : List Char) :
    firstDeclaration? ("  const ".toList ++ w ++ " = ".toList ++ rest) = some w := by
  have hshape : "  const ".toList ++ w ++ " = ".toList ++ rest =
      "  ".toList ++ 'c' :: ("onst".toList ++ ' ' :: (w ++ ' ' :: '=' :: (' ' :: rest))) := by simp
  have hfound := declarationAt?_const hw (' ' :: rest)
  have hconst : "const".toList ++ ' ' :: (w ++ ' ' :: '=' :: (' ' :: rest)) =
      'c' :: ("onst".toList ++ ' ' :: (w ++ ' ' :: '=' :: (' ' :: rest))) := rfl
  rw [hconst] at hfound
  rw [hshape, firstDeclaration?_append_of_no_c (by decide), firstDeclaration?, hfound]

namespace Statement

/-- The name that is found in the code is the one that is declared. -/
theorem declaredName?_of_binding? {s : Statement} {name : String} (hname : s.binding? = some name)
    (hbind : IsBindable name) : declaredName? s.code = some name := by
  have hshape : declaring name.toList s.value.toList (s.uses.map String.toList) =
      "  const ".toList ++ name.toList ++ " = ".toList ++
        (s.value.toList ++ lineEnd (join name.toList (s.uses.map String.toList))) :=
    List.append_assoc _ _ _
  rw [declaredName?, toList_code hname, hshape, firstDeclaration?_declaring hbind.isIdentifier]
  simp

theorem declaredName?_rename {s : Statement} {name new : String} (hname : s.binding? = some name)
    (hbind : IsBindable name) (hnew : IsIdentifier new.toList) :
    declaredName? (rename name new s.code) = some new := by
  rw [declaredName?, rename, String.toList_ofList, toList_code hname,
    renameFrom_declaring _ _ _ hbind.isWord (hbind.toList_ne_of_reserved (by decide)),
    firstDeclaration?_declaring hnew]
  simp

theorem rename_code_eq_iff {s : Statement} (hs : s.IsDeclaring) {name new : String}
    (hname : s.binding? = some name) (hnew : IsWord new.toList)
    (hlonger : name.toList.length < new.toList.length) :
    rename name new s.code = (s.rebind new).code ↔ s.IsApart name := by
  have hbind := isBindable_of_isDeclaring hs hname
  have hlen : 2 ≤ (s.uses.map String.toList).length := by
    cases hs <;> simp [uses]
  rw [isApart_iff hs hname, ← String.toList_inj, rename, String.toList_ofList, toList_code hname,
    toList_code (binding?_rebind hname new), value_rebind, uses_rebind]
  exact renameFrom_declaring_iff hbind.isWord hnew (hbind.toList_ne_of_reserved (by decide)) hlonger
    isSpacer_of_mem_uses hlen

end Statement

/-! ### Distinct names -/

/-- A name that is taken gets longer. -/
theorem Registry.freeName_of_mem {r : Registry} {name : String} (hbind : IsBindable name)
    (hmem : name ∈ r.used) : IsIdentifier (r.freeName name).toList ∧
      name.toList.length < (r.freeName name).toList.length := by
  obtain ⟨hfree, -⟩ | ⟨-, k, heq, -⟩ := r.freeName_cases name
  · exact absurd hmem hfree
  · have hdigits := List.length_pos_of_ne_nil (isWord_toString (k + 2)).ne_nil
    rw [heq]
    refine ⟨(hbind.numbered (k + 2)).isIdentifier, ?_⟩
    rw [String.toList_append, List.length_append]
    omega

theorem distinguish_of_binding? {s : Statement} {name : String} (hname : s.binding? = some name)
    (hbind : IsBindable name) (r : Registry) :
    distinguish s.code r =
      (if r.freeName name = name then s.code else rename name (r.freeName name) s.code,
        (r.claim name).2) := by
  rw [distinguish, Statement.declaredName?_of_binding? hname hbind]
  rfl

/-- Making the name of a statement distinct gives the statement with the name that
was claimed, and nothing else changed, iff the name was free before or is no other
word of the statement. -/
theorem distinguish_code_eq_iff {r : Trace.Record} {ctx : Replay.Context} {s : Statement}
    (h : Replay.generate r ctx = .ok s) {name : String} (hname : s.binding? = some name)
    (reg : Registry) :
    distinguish s.code reg = ((s.rebind (reg.claim name).1).code, (reg.claim name).2) ↔
      reg.contains name = false ∨ s.IsApart name := by
  have hs := Replay.isDeclaring_of_generate h hname
  have hbind := Statement.isBindable_of_isDeclaring hs hname
  rw [distinguish_of_binding? hname hbind, Prod.mk.injEq, and_iff_left rfl, Registry.claim_fst,
    Registry.contains_eq]
  by_cases hmem : name ∈ reg.used
  · -- The number makes the name longer, which is what tells renamings apart.
    obtain ⟨hnew, hlonger⟩ := Registry.freeName_of_mem hbind hmem
    have hne : reg.freeName name ≠ name := fun heq => by simp [heq] at hlonger
    rw [if_neg hne, Statement.rename_code_eq_iff hs hname hnew.isWord hlonger]
    simp [hmem]
  · have hfree := Registry.freeName_eq_self_iff.2 hmem
    rw [if_pos hfree, hfree, Statement.rebind_self hname]
    simp [hmem]

/-- A check that the first place of a text is visible. -/
def firstPlaceOf (text : String) : Trace.Record where
  runId := "run-1"
  specPath := "specs/a.md"
  step := some 1
  tool := .assertText
  input := ⟨[("text", .string text), ("visibleNth", .integer 0)]⟩
  outcome := ⟨true, none, none⟩
  element := none
  pageUrl := none
  timestamp := 0

theorem distinguish_code_eq_iff_welcome :
    ∃ s, Replay.generate (firstPlaceOf "Welcome") ⟨"https://app.test", none, none⟩ = .ok s ∧
      s.binding? = some "welcome" ∧
        distinguish s.code (.seeded ["welcome"]) =
          ((s.rebind "welcome2").code, ⟨"welcome2" :: fileBindings ++ ["welcome"]⟩) := by
  have hgenerate : Replay.generate (firstPlaceOf "Welcome") ⟨"https://app.test", none, none⟩ =
      .ok (.expectNthText "welcome" (.literal "Welcome") 0) := by decide +kernel
  have hclaim : (Registry.seeded ["welcome"]).claim "welcome" =
      ("welcome2", ⟨"welcome2" :: fileBindings ++ ["welcome"]⟩) := by decide +kernel
  have happart : (Statement.expectNthText "welcome" (.literal "Welcome") 0).IsApart "welcome" := by
    simp [Statement.IsApart]
  have hpure := (distinguish_code_eq_iff hgenerate rfl (.seeded ["welcome"])).2 (.inr happart)
  rw [hclaim] at hpure
  exact ⟨_, hgenerate, rfl, hpure⟩

/-- The place of the text `Page` is named after the page, and renaming it renames
the page as well. -/
theorem distinguish_firstPlaceOf_page :
    ∃ s, Replay.generate (firstPlaceOf "Page") ⟨"https://app.test", none, none⟩ = .ok s ∧
      s.binding? = some "page" ∧
        (s.rebind "page2").code = "  const page2 = page.getByText('Page');\n" ++
          "  await expect(page2.nth(0)).toBeVisible();" ∧
        distinguish s.code (.seeded []) = ("  const page2 = page2.getByText('Page');\n" ++
          "  await expect(page2.nth(0)).toBeVisible();", ⟨"page2" :: fileBindings⟩) :=
  ⟨.expectNthText "page" (.literal "Page") 0, by decide +kernel, rfl, by decide +kernel,
    by decide +kernel⟩

end TraceExport.Script
