import TraceExport.Proofs.Path

/-!
Texts on one line. A script has four characters that end a line, and a comment with
it. Putting a text on one line drops two of them, the line breaks, and keeps the two
separators (`exists_terminator_flattenLine`).
-/

namespace TraceExport.Text

/-- Characters that end a line of a script, and a comment with it. -/
def isLineTerminator (c : Char) : Bool :=
  c == '\n' || c == '\r' || c == '\u2028' || c == '\u2029'

/-- The line separator and the paragraph separator. -/
def isLineSeparator (c : Char) : Bool := c == '\u2028' || c == '\u2029'

theorem isLineTerminator_of_isLineSeparator {c : Char} (h : isLineSeparator c) :
    isLineTerminator c := by
  simp only [isLineSeparator, Bool.or_eq_true] at h
  rcases h with h | h <;> simp [isLineTerminator, h]

variable {p : Char → Bool} {c : Char}

/-- Putting a text on one line drops its line breaks, and adds nothing but blanks. -/
theorem mem_flattenLine {s : String} (hc : c ≠ ' ') :
    c ∈ (flattenLine s).toList ↔ c ∈ s.toList ∧ c ≠ '\n' ∧ c ≠ '\r' := by
  have hpieces : ∀ pieces : List (List Char),
      (∃ piece ∈ pieces.filter (!·.isEmpty), c ∈ piece) ↔ ∃ piece ∈ pieces, c ∈ piece := by
    intro pieces
    constructor
    · rintro ⟨piece, hpiece, hmem⟩
      exact ⟨piece, (List.mem_filter.1 hpiece).1, hmem⟩
    · rintro ⟨piece, hpiece, hmem⟩
      exact ⟨piece, List.mem_filter.2 ⟨hpiece, by simpa using List.ne_nil_of_mem hmem⟩, hmem⟩
  rw [flattenLine, String.toList_ofList, mem_join (by simpa using hc), hpieces,
    exists_mem_splitOn]
  simp [and_comm]

theorem not_mem_flattenLine (s : String) :
    '\n' ∉ (flattenLine s).toList ∧ '\r' ∉ (flattenLine s).toList := by
  rw [mem_flattenLine (by decide), mem_flattenLine (by decide)]
  simp

/-- A text has a character that ends a line of a script but is no line break. -/
def HasSeparator (s : String) : Prop := ∃ c ∈ s.toList, isLineSeparator c

theorem exists_terminator_flattenLine {s : String} :
    (∃ c ∈ (flattenLine s).toList, isLineTerminator c) ↔ HasSeparator s := by
  constructor
  · rintro ⟨c, hc, hterminator⟩
    have hblank : c ≠ ' ' := by
      rintro rfl
      simp [isLineTerminator] at hterminator
    obtain ⟨hmem, hfeed, hreturn⟩ := (mem_flattenLine hblank).1 hc
    exact ⟨c, hmem, by simpa [isLineTerminator, isLineSeparator, hfeed, hreturn] using hterminator⟩
  · rintro ⟨c, hc, hseparator⟩
    have hne : ∀ d, isLineSeparator d = false → c ≠ d := by
      rintro d hd rfl
      simp [hd] at hseparator
    have hmem := (mem_flattenLine (hne ' ' rfl)).2 ⟨hc, hne '\n' rfl, hne '\r' rfl⟩
    exact ⟨c, hmem, isLineTerminator_of_isLineSeparator hseparator⟩

/-- A text that ends no line of a script. -/
def StaysOnLine (s : String) : Prop := ∀ c ∈ s.toList, isLineTerminator c = false

instance (s : String) : Decidable (StaysOnLine s) :=
  List.decidableBAll (fun c => isLineTerminator c = false) s.toList

theorem staysOnLine_append {s t : String} :
    StaysOnLine (s ++ t) ↔ StaysOnLine s ∧ StaysOnLine t := by
  simp only [StaysOnLine, String.toList_append, List.forall_mem_append]

/-- A class of characters without line terminators. -/
theorem staysOnLine_of_class (hp : ['\n', '\r', '\u2028', '\u2029'].all (!p ·)) {s : String}
    (hs : ∀ c ∈ s.toList, p c) : StaysOnLine s := by
  intro c hc
  by_contra hterminator
  have hmem : c ∈ ['\n', '\r', '\u2028', '\u2029'] := by
    simpa only [isLineTerminator, Bool.not_eq_false, Bool.or_eq_true, beq_iff_eq, or_assoc,
      List.mem_cons, List.not_mem_nil, or_false] using hterminator
  simpa [hs c hc] using List.all_eq_true.1 hp c hmem

theorem staysOnLine_flattenLine {s : String} : StaysOnLine (flattenLine s) ↔ ¬ HasSeparator s := by
  rw [← exists_terminator_flattenLine]
  simp [StaysOnLine]

theorem not_hasSeparator_of_staysOnLine {s : String} (h : StaysOnLine s) : ¬ HasSeparator s := by
  rintro ⟨c, hc, hseparator⟩
  simpa [h c hc] using isLineTerminator_of_isLineSeparator hseparator

theorem staysOnLine_intercalate {separator : String} (hseparator : StaysOnLine separator)
    {texts : List String} (h : ∀ text ∈ texts, StaysOnLine text) :
    StaysOnLine (separator.intercalate texts) := by
  induction texts with
  | nil => simp [StaysOnLine]
  | cons text texts ih =>
      obtain ⟨htext, htexts⟩ := List.forall_mem_cons.1 h
      cases texts with
      | nil => simpa using htext
      | cons next texts =>
          rw [String.intercalate_cons_cons]
          exact staysOnLine_append.2 ⟨staysOnLine_append.2 ⟨htext, hseparator⟩, ih htexts⟩

/-- A text is some whole lines of another. -/
def IsLineOf (line text : String) : Prop :=
  ∃ before after, text = before ++ "\n" ++ line ++ "\n" ++ after

theorem IsLineOf.trans {s t u : String} (hs : IsLineOf s ("\n" ++ t ++ "\n"))
    (ht : IsLineOf t u) : IsLineOf s u := by
  obtain ⟨before, after, hs⟩ := hs
  obtain ⟨before', after', rfl⟩ := ht
  refine ⟨before' ++ before, after ++ after', ?_⟩
  calc before' ++ "\n" ++ t ++ "\n" ++ after'
      = before' ++ ("\n" ++ t ++ "\n") ++ after' := by simp only [String.append_assoc]
    _ = before' ++ (before ++ "\n" ++ s ++ "\n" ++ after) ++ after' := by rw [hs]
    _ = before' ++ before ++ "\n" ++ s ++ "\n" ++ (after ++ after') := by
        simp only [String.append_assoc]

theorem isLineOf_intercalate {line : String} {lines : List String} (h : line ∈ lines) :
    IsLineOf line ("\n" ++ "\n".intercalate lines ++ "\n") := by
  induction lines with
  | nil => simp at h
  | cons first lines ih =>
      cases lines with
      | nil =>
          obtain rfl : line = first := by simpa using h
          exact ⟨"", "", by simp⟩
      | cons next lines =>
          rw [String.intercalate_cons_cons]
          rcases List.mem_cons.1 h with rfl | h
          · exact ⟨"", "\n".intercalate (next :: lines) ++ "\n", by simp [String.append_assoc]⟩
          · obtain ⟨before, after, hrest⟩ := ih h
            refine ⟨"\n" ++ first ++ before, after, ?_⟩
            calc "\n" ++ (first ++ "\n" ++ "\n".intercalate (next :: lines)) ++ "\n"
                = "\n" ++ first ++ ("\n" ++ "\n".intercalate (next :: lines) ++ "\n") := by
                  simp only [String.append_assoc]
              _ = "\n" ++ first ++ (before ++ "\n" ++ line ++ "\n" ++ after) := by rw [hrest]
              _ = "\n" ++ first ++ before ++ "\n" ++ line ++ "\n" ++ after := by
                  simp only [String.append_assoc]

end TraceExport.Text
