import TraceExport.Proofs.Destination
import TraceExport.Proofs.Pattern

/-!
The readers of placeholders agree. The names of a text, the one name that a text consists of, the
address in a text, and the address that a text starts with are read by functions of their own. All
of them find the first placeholder of the text (`first?_of_addressToken?`, `first?_of_leading?`).
-/

namespace TraceExport.Spec

open Text

namespace Placeholder

theorem first?_of_read? {s : List Char} {found : List Char × List Char} (h : read? s = some found) :
    first? s = some found := by
  cases s with
  | nil => cases h
  | cons c s => rw [first?, h]

theorem head?_vars (t : String) :
    (vars t).head? = (first? t.toList).map fun found => String.ofList found.1 := by
  rw [vars, occurrences_eq_first?]
  cases first? t.toList with
  | none => rfl
  | some found => rw [List.eraseDups_cons, List.head?_cons, Option.map_some]

theorem vars_ne_nil_iff_first? (t : String) : vars t ≠ [] ↔ (first? t.toList).isSome := by
  rw [← List.isSome_head?, head?_vars, Option.isSome_map]

/-- The first placeholder does not stand in front of the first brace. -/
theorem first?_append {lead : List Char} (h : '\x7b' ∉ lead) (s : List Char) :
    first? (lead ++ s) = first? s := by
  induction lead with
  | nil => rfl
  | cons c lead ih =>
      rw [List.mem_cons, not_or] at h
      have hopens : (c :: (lead ++ s)).head? ≠ some '\x7b' := by simpa using Ne.symm h.1
      rw [List.cons_append, first?, read?_of_head hopens, ih h.2]

/-! ### Texts that start with a placeholder -/

theorem first?_of_leading? {s : List Char} {found : List Char × List Char}
    (h : leading? s = some found) : first? s = some found := by
  have hlead : '\x7b' ∉ s.takeWhile isBlank := fun hmem =>
    absurd (List.all_eq_true.1 List.all_takeWhile _ hmem) (by decide)
  rw [← List.takeWhile_append_dropWhile (p := isBlank) (l := s), first?_append hlead]
  exact first?_of_read? h

theorem afterVariable?_append {braced rest s : List Char} {var : String}
    (h : IsBraced braced var.toList) (hs : trimStart s = braced ++ rest) :
    afterVariable? var s = some rest := by
  obtain ⟨hvariable, before, after, hbefore, hafter, rfl⟩ := h
  rw [afterVariable?, hs]
  simp only [List.append_assoc, dropPrefix?_append, Option.bind_eq_bind, Option.bind_some,
    trimStart_name hbefore hvariable, trimStart_closing hafter]

/-- The reader of one variable finds it exactly where it is the one that a text starts with. -/
theorem afterVariable?_eq_some {var : String} (hvar : isName var) {s rest : List Char} :
    afterVariable? var s = some rest ↔ leading? s = some (var.toList, rest) := by
  constructor
  · intro h
    obtain ⟨braced, hbraced, hs⟩ := Replay.of_afterVariable? hvar h
    rw [leading?, hs, read?_append hbraced]
  · intro h
    obtain ⟨braced, hbraced, hs⟩ := of_read? h
    exact afterVariable?_append hbraced hs

theorem startsWithAddress_iff {s : List Char} :
    startsWithAddress s ↔ ∃ var, isAddress var ∧ (afterVariable? var s).isSome := by
  rw [startsWithAddress]
  constructor
  · intro h
    split at h
    · rename_i name rest hleading
      rw [← String.toList_ofList (l := name)] at hleading
      have hafter := (afterVariable?_eq_some (isName_of_isAddress h)).2 hleading
      exact ⟨String.ofList name, h, Option.isSome_of_eq_some hafter⟩
    · cases h
  · rintro ⟨var, hvar, hsome⟩
    obtain ⟨rest, hrest⟩ := Option.isSome_iff_exists.1 hsome
    rw [(afterVariable?_eq_some (isName_of_isAddress hvar)).1 hrest]
    simpa using hvar

end Placeholder

/-! ### Addresses -/

open Placeholder

/-- A text that starts with a placeholder starts with an address. -/
theorem read?_of_afterAddress? {s : List Char} (h : afterAddress? s = none) : read? s = none := by
  rw [afterAddress?, Option.map_eq_none_iff, afterLead_eq] at h
  split at h
  · rename_i rest hstart
    exact read?_of_head (head?_of_afterStart? hstart)
  · exact h

/-- The first placeholder of a text that starts with an address is the first one of the address. -/
theorem first?_of_afterAddress? {s rest : List Char} (h : afterAddress? s = some rest) :
    ∃ lead braced name tail after,
      trimEndOf isStop (s.take (s.length - rest.length)) = lead ++ (braced ++ tail) ∧
      IsBraced braced name ∧ first? (lead ++ (braced ++ tail)) = some (name, tail) ∧
      first? s = some (name, after) := by
  obtain ⟨lead, braced, name, tail, after, hraw, hs, hbraced, hlead, -⟩ := of_afterAddress? h
  have hopens : '\x7b' ∉ lead := fun hmem => (hlead _ hmem).2 rfl
  have hfirst : ∀ rest, first? (lead ++ (braced ++ rest)) = some (name, rest) := by
    intro rest
    rw [first?_append hopens]
    exact first?_of_read? (read?_append hbraced rest)
  exact ⟨lead, braced, name, tail, after, hraw, hbraced, hfirst tail, by rw [hs, hfirst]⟩

theorem addressToken?_isSome (s : List Char) : (addressToken? s).isSome = (first? s).isSome := by
  induction s with
  | nil => rfl
  | cons c s ih =>
      rw [addressToken?]
      split
      · rename_i rest hafter
        obtain ⟨-, -, name, -, after, -, -, -, hfirst⟩ := first?_of_afterAddress? hafter
        rw [hfirst]
        rfl
      · rename_i hafter
        rw [first?, read?_of_afterAddress? hafter, ih]

/-- The first placeholder of a text is the first one of the address in it. -/
theorem first?_of_addressToken? {s raw : List Char} (h : addressToken? s = some raw) :
    ∃ lead braced name tail after, raw = lead ++ (braced ++ tail) ∧ IsBraced braced name ∧
      first? raw = some (name, tail) ∧ first? s = some (name, after) := by
  induction s with
  | nil => cases h
  | cons c s ih =>
      rw [addressToken?] at h
      split at h
      · rename_i rest hafter
        obtain ⟨lead, braced, name, tail, after, hraw, hbraced, htoken, hfirst⟩ :=
          first?_of_afterAddress? hafter
        rw [hraw] at h
        cases h
        exact ⟨lead, braced, name, tail, after, rfl, hbraced, htoken, hfirst⟩
      · rename_i hafter
        rw [first?, read?_of_afterAddress? hafter]
        exact ih h

theorem ofTemplate?_of_sole? {t : String} {name : List Char} (h : sole? t.toList = some name) :
    Script.Expr.ofTemplate? t = some (.binding (String.ofList name)) := by
  rw [Script.Expr.ofTemplate?, h]

/-- The readers of placeholders agree on every text. An address is found exactly where there is a
variable, and has the first variable of the text for its first. A text that is one variable has no
other, and its expression is the binding of it. A text starts with an address exactly where what
follows this can be read, and that is what follows the first placeholder. -/
theorem readers_agree (t : String) :
    ReadsPatterns t.toList ∧
      ((addressToken? t.toList).isSome ↔ vars t ≠ []) ∧
      (∀ raw, addressToken? t.toList = some raw → ∃ lead braced name tail,
        raw = lead ++ (braced ++ tail) ∧ IsBraced braced name ∧
          (vars (String.ofList raw)).head? = some (String.ofList name) ∧
          (vars t).head? = some (String.ofList name)) ∧
      (∀ name, sole? t.toList = some name → vars t = [String.ofList name] ∧
        Script.Expr.ofTemplate? t = some (.binding (String.ofList name))) ∧
      (startsWithAddress t.toList ↔
        (afterVariable? baseUrl t.toList).isSome ∨ (afterVariable? loginBaseUrl t.toList).isSome) ∧
      ∀ var ∈ [baseUrl, loginBaseUrl], ∀ rest, afterVariable? var t.toList = some rest →
        first? t.toList = some (var.toList, rest) := by
  refine ⟨readsPatterns t.toList, ?_, ?_, ?_, ?_, ?_⟩
  · rw [addressToken?_isSome, vars_ne_nil_iff_first?]
  · intro raw hraw
    obtain ⟨lead, braced, name, tail, after, hsplit, hbraced, htoken, hfirst⟩ :=
      first?_of_addressToken? hraw
    refine ⟨lead, braced, name, tail, hsplit, hbraced, ?_, ?_⟩
    · rw [head?_vars, String.toList_ofList, htoken]
      rfl
    · rw [head?_vars, hfirst]
      rfl
  · intro name hname
    exact ⟨vars_of_sole? hname, ofTemplate?_of_sole? hname⟩
  · rw [startsWithAddress_iff]
    simp [isAddress]
  · intro var hvar rest hrest
    have haddress : isAddress var := by simpa [isAddress] using hvar
    exact first?_of_leading? ((afterVariable?_eq_some (isName_of_isAddress haddress)).1 hrest)

/-- A variable with blanks around it, inside its braces and outside of them. -/
def paddedText : String := "\t\x7b\x7b BASE_URL \x7d\x7d "

/-- A step with more braces than its two variables have. -/
def bracesText : String :=
  "Open \x7b\x7b\x7d\x7d or http://a/\x7b\x7b\x7bHOST\x7d\x7d/?u=\x7b\x7b ID\x7d\x7d)."

theorem readers_agree_padded :
    vars paddedText = ["BASE_URL"] ∧
      (addressToken? paddedText.toList).isSome ∧
      Script.Expr.ofTemplate? paddedText = some (.binding "BASE_URL") ∧
      startsWithAddress paddedText.toList ∧
      first? paddedText.toList = some ("BASE_URL".toList, [' ']) ∧
      ∃ raw, addressToken? bracesText.toList = some raw ∧
        (vars (String.ofList raw)).head? = some "HOST" ∧ vars bracesText = ["HOST", "ID"] := by
  obtain ⟨-, hsome, -, hsole, hstarts, hafter⟩ := readers_agree paddedText
  have hname : sole? paddedText.toList = some "BASE_URL".toList := by decide
  have hrest : afterVariable? baseUrl paddedText.toList = some [' '] := by decide
  obtain ⟨hvars, hbinding⟩ := hsole _ hname
  rw [String.ofList_toList] at hvars hbinding
  refine ⟨hvars, hsome.2 (by simp [hvars]), hbinding, hstarts.2 (.inl (by simp [hrest])),
    hafter baseUrl (by simp) _ hrest, ?_⟩
  obtain ⟨-, hfound, htoken, -⟩ := readers_agree bracesText
  have hboth : vars bracesText = ["HOST", "ID"] := by decide +kernel
  obtain ⟨raw, hraw⟩ := Option.isSome_iff_exists.1 (hfound.2 (by simp [hboth]))
  obtain ⟨-, -, name, -, -, -, hfirst, hsame⟩ := htoken raw hraw
  rw [hboth] at hsame
  exact ⟨raw, hraw, hfirst.trans hsame.symm, hboth⟩

end TraceExport.Spec
