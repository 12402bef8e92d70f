import TraceExport.Spec.Placeholder

/-!
Names found by the reader of placeholders are names of variables: not empty, and
made of capital letters, digits and underscores. Between two placeholders there is
at most one stretch of plain text.
-/

namespace TraceExport.Spec.Placeholder

/-- The name of a variable, as characters. -/
structure IsVariable (name : List Char) : Prop where
  ne_nil : name ≠ []
  letters : ∀ c ∈ name, isNameChar c

theorem isName_iff {s : String} : isName s ↔ IsVariable s.toList := by
  have hempty : s = "" ↔ s.toList = [] := by simp
  constructor
  · intro h
    simp only [isName, Bool.and_eq_true, bne_iff_ne, ne_eq, List.all_eq_true] at h
    exact ⟨mt hempty.2 h.1, h.2⟩
  · rintro ⟨hne, hletters⟩
    simp only [isName, Bool.and_eq_true, bne_iff_ne, ne_eq, List.all_eq_true]
    exact ⟨mt hempty.1 hne, hletters⟩

theorem isAddress_iff {var : String} : isAddress var ↔ var = baseUrl ∨ var = loginBaseUrl := by
  simp [isAddress]

theorem isName_of_isAddress {var : String} (h : isAddress var) : isName var := by
  rcases isAddress_iff.1 h with rfl | rfl <;> decide

/-- A name in doubled braces, perhaps with blanks around it. -/
def IsBraced (braced name : List Char) : Prop :=
  IsVariable name ∧ ∃ before after, (∀ c ∈ before, Text.isBlank c) ∧
    (∀ c ∈ after, Text.isBlank c) ∧
    braced = opening ++ (before ++ (name ++ (after ++ closing)))

theorem of_read? {s name rest : List Char} (h : read? s = some (name, rest)) :
    ∃ braced, IsBraced braced name ∧ s = braced ++ rest := by
  unfold read? at h
  split at h
  · simp at h
  · rename_i inside hopen
    simp only at h
    split at h
    · simp at h
    · rename_i hne
      simp only [Option.map_eq_some_iff, Prod.mk.injEq] at h
      obtain ⟨r, hclose, rfl, rfl⟩ := h
      have hletters : ∀ c ∈ (Text.trimStart inside).takeWhile isNameChar, isNameChar c :=
        List.all_eq_true.1 List.all_takeWhile
      have hblanks : ∀ t : List Char, ∀ c ∈ t.takeWhile Text.isBlank, Text.isBlank c := fun t =>
        List.all_eq_true.1 List.all_takeWhile
      refine ⟨_, ⟨⟨by simpa using hne, hletters⟩, inside.takeWhile Text.isBlank,
        ((Text.trimStart inside).dropWhile isNameChar).takeWhile Text.isBlank,
        hblanks _, hblanks _, rfl⟩, ?_⟩
      have hlast := Text.dropPrefix?_eq_some.1 hclose
      rw [Text.dropPrefix?_eq_some.1 hopen]
      simp only [List.append_assoc, ← hlast, Text.trimStart, List.takeWhile_append_dropWhile]

theorem isVariable_of_read? {s name rest : List Char} (h : read? s = some (name, rest)) :
    IsVariable name := by
  obtain ⟨braced, hbraced, -⟩ := of_read? h
  exact hbraced.1

theorem flatMap_consPlain {f : Piece → List Char} (hf : ∀ text, f (.plain text) = text)
    (c : Char) (ps : List Piece) : (consPlain c ps).flatMap f = c :: ps.flatMap f := by
  unfold consPlain
  split <;> simp [hf]

theorem mem_of_mem_consPlain {c : Char} {name : List Char} {ps : List Piece}
    (h : Piece.placeholder name ∈ consPlain c ps) : Piece.placeholder name ∈ ps := by
  unfold consPlain at h
  split at h
  · simpa using h
  · simpa using h

theorem isVariable_of_mem_pieces {s name : List Char} (h : Piece.placeholder name ∈ pieces s) :
    IsVariable name := by
  fun_induction pieces s with
  | case1 => simp at h
  | case2 c rest found after hread _ ih =>
      rcases List.mem_cons.1 h with heq | h
      · cases heq
        exact isVariable_of_read? hread
      · exact ih h
  | case3 c rest _ ih => exact ih (mem_of_mem_consPlain h)

theorem isName_of_mem_occurrences {s : List Char} {v : String} (h : v ∈ occurrences s) :
    isName v := by
  obtain ⟨piece, hpiece, hname⟩ := List.mem_filterMap.1 h
  cases piece with
  | plain text => simp [Piece.name?] at hname
  | placeholder name =>
      obtain rfl : String.ofList name = v := by simpa [Piece.name?] using hname
      exact isName_iff.2 (by simpa using isVariable_of_mem_pieces hpiece)

/-- Pieces without two stretches of plain text side by side. -/
def Alternates : List Piece → Prop
  | .plain _ :: .plain _ :: _ => False
  | _ :: ps => Alternates ps
  | [] => True

theorem Alternates.tail {p : Piece} {ps : List Piece} (h : Alternates (p :: ps)) :
    Alternates ps := by
  match p, ps with
  | _, [] => trivial
  | .placeholder _, _ => exact h
  | .plain _, .placeholder _ :: _ => exact h
  | .plain _, .plain _ :: _ => exact h.elim

theorem alternates_consPlain {ps : List Piece} (h : Alternates ps) (c : Char) :
    Alternates (consPlain c ps) := by
  match ps with
  | [] => trivial
  | .placeholder _ :: _ => exact h
  | [.plain _] => trivial
  | .plain _ :: .placeholder _ :: _ => exact h
  | .plain _ :: .plain _ :: _ => exact h

theorem alternates_pieces (s : List Char) : Alternates (pieces s) := by
  fun_induction pieces s with
  | case1 => trivial
  | case2 c rest name after _ _ ih => exact ih
  | case3 c rest _ ih => exact alternates_consPlain ih c

theorem isVariable_of_sole? {s name : List Char} (h : sole? s = some name) : IsVariable name := by
  unfold sole? leading? at h
  split at h
  · rename_i found rest hread
    split at h
    · cases h
      exact isVariable_of_read? hread
    · simp at h
  · simp at h

/-- Plain text of a piece stands in the text that is cut. -/
theorem mem_of_mem_plain {s text : List Char} {c : Char} (h : Piece.plain text ∈ pieces s)
    (hc : c ∈ text) : c ∈ s := by
  fun_induction pieces s generalizing text with
  | case1 => simp at h
  | case2 d rest name after hread _ ih =>
      have h : Piece.plain text ∈ pieces after := by simpa using h
      obtain ⟨braced, -, hsplit⟩ := of_read? hread
      rw [hsplit]
      exact List.mem_append_right braced (ih h hc)
  | case3 d rest _ ih =>
      unfold consPlain at h
      split at h
      · rename_i first ps hps
        rw [hps] at ih
        rcases List.mem_cons.1 h with heq | h
        · cases heq
          exact List.mem_cons.2 ((List.mem_cons.1 hc).imp_right (ih List.mem_cons_self))
        · exact List.mem_cons_of_mem d (ih (List.mem_cons_of_mem _ h) hc)
      · rcases List.mem_cons.1 h with heq | h
        · cases heq
          exact List.mem_cons.2 (.inl (by simpa using hc))
        · exact List.mem_cons_of_mem d (ih h hc)

/-! ### Texts that are one placeholder -/

/-- Whether nothing is printed for a piece. -/
def Piece.isBlank : Piece → Bool
  | .plain text => text.all Text.isBlank
  | .placeholder _ => false

/-- The pieces of a text without stretches of blanks. -/
def inked (s : List Char) : List Piece := (pieces s).filter (!·.isBlank)

theorem read?_of_head {s : List Char} (h : s.head? ≠ some '\x7b') : read? s = none := by
  unfold read?
  split
  · rfl
  · rename_i inside hopen
    refine absurd ?_ h
    rw [Text.dropPrefix?_eq_some.1 hopen]
    rfl

theorem pieces_of_read? {s name rest : List Char} (h : read? s = some (name, rest)) :
    pieces s = .placeholder name :: pieces rest := by
  cases s with
  | nil => simp [read?, Text.dropPrefix?, opening] at h
  | cons c s =>
      rw [pieces]
      split
      · rename_i name' rest' hread
        rw [h] at hread
        cases hread
        rfl
      · rename_i hread
        simp [h] at hread

theorem pieces_cons {c : Char} {s : List Char} (h : read? (c :: s) = none) :
    pieces (c :: s) = consPlain c (pieces s) := by
  rw [pieces]
  split
  · rename_i hread
    simp [h] at hread
  · rfl

theorem pieces_blank {c : Char} (hc : Text.isBlank c) (s : List Char) :
    pieces (c :: s) = consPlain c (pieces s) := by
  refine pieces_cons (read?_of_head ?_)
  rintro ⟨⟩
  simp [Text.isBlank] at hc

/-- A character that is no blank, in front of a text, is printed. -/
theorem inked_consPlain {c : Char} (hc : Text.isBlank c = false) (ps : List Piece) :
    ∃ text rest, (consPlain c ps).filter (!·.isBlank) = .plain text :: rest := by
  unfold consPlain
  split
  · simp [Piece.isBlank, hc]
  · simp [Piece.isBlank, hc]

theorem filter_consPlain_blank {c : Char} (hc : Text.isBlank c) (ps : List Piece) {name : List Char} :
    (consPlain c ps).filter (!·.isBlank) = [.placeholder name] ↔
      ps.filter (!·.isBlank) = [.placeholder name] := by
  unfold consPlain
  split
  · rename_i text rest
    by_cases htext : text.all Text.isBlank
    · simp [Piece.isBlank, hc, htext]
    · simp [Piece.isBlank, hc, htext]
  · simp [Piece.isBlank, hc]

theorem filter_consPlain_eq_nil {c : Char} {ps : List Piece} :
    (consPlain c ps).filter (!·.isBlank) = [] ↔
      Text.isBlank c ∧ ps.filter (!·.isBlank) = [] := by
  cases ps with
  | nil => simp [consPlain, Piece.isBlank]
  | cons p ps => cases p <;> simp [consPlain, Piece.isBlank, and_assoc]

theorem inked_eq_nil {s : List Char} : inked s = [] ↔ s.all Text.isBlank := by
  unfold inked
  fun_induction pieces s with
  | case1 => simp
  | case2 c rest name after hread _ _ =>
      have hprinted : Text.isBlank c = false := by
        by_cases hopens : c = '\x7b'
        · rw [hopens]
          rfl
        · simp [read?_of_head (s := c :: rest) (by simpa using hopens)] at hread
      simp [Piece.isBlank, hprinted]
  | case3 c rest _ ih => rw [filter_consPlain_eq_nil, ih, List.all_cons, Bool.and_eq_true]

/-- Blanks in front of a text do not matter. -/
theorem inked_trimStart {s name : List Char} :
    inked (Text.trimStart s) = [.placeholder name] ↔ inked s = [.placeholder name] := by
  induction s with
  | nil => rfl
  | cons c s ih =>
      by_cases hc : Text.isBlank c
      · have htrim : Text.trimStart (c :: s) = Text.trimStart s := by simp [Text.trimStart, hc]
        rw [htrim, ih, inked, inked, pieces_blank hc, filter_consPlain_blank hc]
      · have htrim : Text.trimStart (c :: s) = c :: s := by simp [Text.trimStart, hc]
        rw [htrim]

/-- A text is one placeholder with nothing but blanks around it exactly if nothing else is
printed. -/
theorem sole?_eq_some {s name : List Char} :
    sole? s = some name ↔ inked s = [.placeholder name] := by
  rw [← inked_trimStart, sole?, leading?]
  have hopens : ∀ c rest, Text.trimStart s = c :: rest → Text.isBlank c = false := by
    intro c rest h
    have hfirst := List.head?_dropWhile_not Text.isBlank s
    rw [← Text.trimStart, h] at hfirst
    exact hfirst
  cases hread : read? (Text.trimStart s) with
  | some found =>
      obtain ⟨name', rest⟩ := found
      have hinked : inked (Text.trimStart s) = .placeholder name' :: inked rest := by
        simp [inked, pieces_of_read? hread, Piece.isBlank]
      rw [hinked, List.cons.injEq, inked_eq_nil]
      by_cases hrest : rest.all Text.isBlank
      · simp [hrest]
      · simp [hrest]
  | none =>
      cases htrim : Text.trimStart s with
      | nil => simp [inked, pieces]
      | cons c rest =>
          rw [htrim] at hread
          obtain ⟨text, ps, hinked⟩ := inked_consPlain (hopens c rest htrim) (pieces rest)
          rw [inked, pieces_cons hread, hinked]
          simp

/-- The only variable of a text that is one placeholder. -/
theorem vars_of_sole? {raw : String} {name : List Char} (h : sole? raw.toList = some name) :
    vars raw = [String.ofList name] := by
  have hnames : (inked raw.toList).filterMap Piece.name? = occurrences raw.toList := by
    have hname : (fun p : Piece => if !p.isBlank then p.name? else none) = Piece.name? := by
      funext p
      cases p with
      | plain text => simp [Piece.name?]
      | placeholder name => simp [Piece.isBlank]
    rw [inked, List.filterMap_filter, hname]
    rfl
  rw [vars, ← hnames, sole?_eq_some.1 h]
  rfl

end TraceExport.Spec.Placeholder
