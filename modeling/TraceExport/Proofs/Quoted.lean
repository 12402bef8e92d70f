import TraceExport.Proofs.Value

/-!
Literals in single quotation marks. Two readers decide where such a literal ends: the engine of the
script, which makes a value of it, and renaming, which copies it and goes on behind it. Both end
exactly where `quoted` does, whatever text was quoted and whatever follows (`quoted_ends`).
-/

namespace TraceExport.Script

open Text

theorem not_break_of_mem_escapeQuotedChar {c d : Char} (h : d ∈ escapeQuotedChar c) :
    d ≠ '\n' ∧ d ≠ '\r' := by
  unfold escapeQuotedChar at h
  split at h
  case h_6 hfeed hreturn _ =>
      obtain rfl := List.mem_singleton.1 h
      exact ⟨hfeed, hreturn⟩
  all_goals
    simp only [List.mem_cons, List.not_mem_nil, or_false] at h
    rcases h with rfl | rfl <;> decide

/-- No line break is left in a text that is written in quotation marks. -/
theorem not_break_of_mem_escapeQuoted {value : String} {c : Char}
    (h : c ∈ (escapeQuoted value).toList) : c ≠ '\n' ∧ c ≠ '\r' := by
  rw [escapeQuoted, String.toList_ofList, List.mem_flatMap] at h
  obtain ⟨d, -, hc⟩ := h
  exact not_break_of_mem_escapeQuotedChar hc

/-- A literal is copied as it stands, and renaming goes on behind it. -/
theorem renameFrom_literal {mark : Char} {s : List Char} (hquote : isQuote mark)
    (hs : Passes mark s) (old new t : List Char) (prev before : Option Char) :
    renameFrom old new prev before (mark :: (s ++ mark :: t)) =
      mark :: (s ++ mark :: renameFrom old new (some mark) (some mark) t) := by
  have hmark : mark ≠ '\\' := by
    rintro rfl
    simp [isQuote] at hquote
  rw [renameFrom, if_pos hquote]
  simp only [hs.splitQuoted_close hmark]
  rw [← List.cons_append, List.getLast?_concat, List.append_assoc]
  rfl

/-- A literal goes from its first quotation mark to its last one, both for the engine of the script,
which reads the text that was quoted, and for renaming, which copies it and resumes behind it. -/
theorem quoted_ends (value : String) (rest : List Char) :
    (quoted value).toList = '\'' :: (escapeQuoted value).toList ++ ['\''] ∧
      (∀ c ∈ (escapeQuoted value).toList, c ≠ '\n' ∧ c ≠ '\r') ∧
      readQuoted? ((escapeQuoted value).toList ++ '\'' :: rest) = some (value.toList, rest) ∧
      splitQuoted '\'' ((escapeQuoted value).toList ++ '\'' :: rest) =
        ((escapeQuoted value).toList ++ ['\''], rest) ∧
      ∀ old new prev before, renameFrom old new prev before ((quoted value).toList ++ rest) =
        (quoted value).toList ++ renameFrom old new (some '\'') (some '\'') rest := by
  have hshape : (quoted value).toList = '\'' :: (escapeQuoted value).toList ++ ['\''] := by
    simp [quoted]
  have hpass := passes_escapeQuoted value
  refine ⟨hshape, fun c hc => not_break_of_mem_escapeQuoted hc, readQuoted?_escapeQuoted value rest,
    hpass.splitQuoted_close (by decide) rest, fun old new prev before => ?_⟩
  simpa [hshape] using renameFrom_literal rfl hpass old new rest prev before

end TraceExport.Script
