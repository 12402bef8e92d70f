import TraceExport.Export.Location
import TraceExport.Proofs.Path
import TraceExport.Trace.Store

/-!
Names of files and directories made from arbitrary texts. The steps of making a name come one after
the other, and none brings back what an earlier one removed: a run of dots is left with one dot at
most, and from then on no two dots come together. So every name is a single component below its
directory (`components_below`).
-/

namespace TraceExport.Text

theorem pair_infix_cons {a b c : Char} {s : List Char} :
    [a, b] <:+: c :: s ↔ (a = c ∧ s.head? = some b) ∨ [a, b] <:+: s := by
  rw [List.infix_cons_iff, List.cons_prefix_cons]
  cases s with
  | nil => simp
  | cons d s => simp [List.cons_prefix_cons, eq_comm]

theorem head?_replaceAll {p : Char} {ps new s : List Char} (h : s.head? ≠ some p) :
    (replaceAll (p :: ps) new s).head? = s.head? := by
  cases s with
  | nil => rw [replaceAll]
  | cons c s =>
      have hp : p ≠ c := by simpa [eq_comm] using h
      rw [replaceAll_cons (by simp) (by simp [dropPrefix?, hp])]
      rfl

/-- Once doubled characters are removed, none are left, and the removal makes no new ones. -/
theorem not_infix_replaceAll (c : Char) (s : List Char) :
    ¬ [c, c] <:+: replaceAll [c, c] [] s := by
  generalize hpattern : [c, c] = pattern
  fun_induction replaceAll pattern [] s with
  | case1 => simp [← hpattern]
  | case2 => cases hpattern
  | case3 d rest p ps after hdrop _ ih => exact ih hpattern
  | case4 d rest p ps hdrop ih =>
      cases hpattern
      rw [pair_infix_cons]
      rintro (⟨rfl, hhead⟩ | htail)
      · -- What follows does not open with the character, and still does not.
        have hnext : rest.head? ≠ some c := by
          intro hsame
          obtain ⟨rest, rfl⟩ := List.head?_eq_some_iff.1 hsame
          simp [dropPrefix?] at hdrop
        rw [head?_replaceAll hnext] at hhead
        exact hnext hhead
      · exact ih rfl htail

theorem mem_of_mem_replaceAll {pattern s : List Char} {c : Char}
    (h : c ∈ replaceAll pattern [] s) : c ∈ s := by
  fun_induction replaceAll pattern [] s with
  | case1 => exact h
  | case2 => exact h
  | case3 d rest p ps after hdrop _ ih =>
      rw [dropPrefix?_eq_some.1 hdrop]
      exact List.mem_append_right _ (ih (by simpa using h))
  | case4 d rest p ps hdrop ih => exact List.mem_cons.2 ((List.mem_cons.1 h).imp_right ih)

end TraceExport.Text

namespace TraceExport.Segment

/-! ### The steps of making a name -/

/-- What is left is an underscore or was there before, and then it separates nothing. -/
theorem of_mem_collapse {inRun : Bool} {s : List Char} {c : Char} (h : c ∈ collapse inRun s) :
    c = '_' ∨ c ∈ s ∧ isSeparator c = false := by
  fun_induction collapse inRun s with
  | case1 => cases h
  | case2 d s hsep ih => exact (ih h).imp_right (And.imp_left (List.mem_cons_of_mem d))
  | case3 inRun d s hsep hrun ih =>
      rcases List.mem_cons.1 h with rfl | h
      · exact .inl rfl
      · exact (ih h).imp_right (And.imp_left (List.mem_cons_of_mem d))
  | case4 inRun d s hsep ih =>
      rcases List.mem_cons.1 h with rfl | h
      · exact .inr ⟨List.mem_cons_self, by simpa using hsep⟩
      · exact (ih h).imp_right (And.imp_left (List.mem_cons_of_mem d))

/-- Separators do not bring two dots together: an underscore is left between them. -/
theorem not_infix_collapse {s : List Char} (h : ¬ ['.', '.'] <:+: s) (inRun : Bool) :
    ¬ ['.', '.'] <:+: collapse inRun s := by
  induction s generalizing inRun with
  | nil => simp [collapse]
  | cons c s ih =>
      rw [Text.pair_infix_cons, not_or] at h
      obtain ⟨hfirst, hs⟩ := h
      have hrest := ih hs
      rw [collapse]
      split
      · split
        · exact hrest true
        · rw [Text.pair_infix_cons]
          simpa using hrest true
      · rw [Text.pair_infix_cons]
        rintro (⟨rfl, hhead⟩ | htail)
        · -- A dot that comes next was there before.
          refine hfirst ⟨rfl, ?_⟩
          cases s with
          | nil => simp [collapse] at hhead
          | cons d s =>
              rw [collapse] at hhead
              split at hhead
              · simp at hhead
              · simpa using hhead
        · exact hrest false htail

theorem isInfix_trimmed (s : List Char) : trimmed s <:+: s :=
  (Text.trimEndOf_isPrefix _ _).isInfix.trans (List.dropWhile_suffix _).isInfix

theorem head?_of_prefix_trimmed {s t : List Char} (h : t <+: trimmed s) {c : Char}
    (hc : t.head? = some c) : c ≠ '.' ∧ c ≠ '_' := by
  obtain ⟨tail, htail⟩ := h.trans (Text.trimEndOf_isPrefix _ _)
  obtain ⟨rest, rfl⟩ := List.head?_eq_some_iff.1 hc
  have hnot := List.head?_dropWhile_not (fun c => c == '.' || c == '_') s
  rw [← htail] at hnot
  simpa using hnot

/-! ### Safe names -/

/-- Characters that mean something to a file system, or are refused by one. -/
def forbidden : List Char := ['/', '\\', '<', '>', ':', '"', '|', '?', '*']

/-- A name that stays in its directory on every file system. -/
structure IsSafe (name : List Char) : Prop where
  ne_nil : name ≠ []
  length : name.length ≤ 200
  allowed : ∀ c ∈ name, c ∉ forbidden ∧ Text.isControl c = false
  noParent : ¬ ['.', '.'] <:+: name
  first : ∀ c, name.head? = some c → c ≠ '.' ∧ c ≠ '_'

theorem allowed_of_kept {c : Char} (hkept : isUnsafe c = false) (hsep : isSeparator c = false) :
    c ∉ forbidden ∧ Text.isControl c = false := by
  simp_all [forbidden, isUnsafe, isSeparator]

theorem isSafe_characters {s : List Char} (hne : characters s ≠ []) : IsSafe (characters s) := by
  have hprefix : characters s <+: trimmed (collapse false
      (Text.replaceAll ['.', '.'] [] (s.filter (!isUnsafe ·)))) := List.take_prefix _ _
  have hpart := hprefix.isInfix.trans (isInfix_trimmed _)
  refine ⟨hne, List.length_take_le _ _, fun c hc => ?_, fun hparent => ?_,
    fun c hc => head?_of_prefix_trimmed hprefix hc⟩
  · obtain rfl | ⟨hmem, hsep⟩ := of_mem_collapse (hpart.subset hc)
    · exact allowed_of_kept rfl rfl
    · have hkept := (List.mem_filter.1 (Text.mem_of_mem_replaceAll hmem)).2
      exact allowed_of_kept (by simpa using hkept) hsep
  · exact not_infix_collapse (Text.not_infix_replaceAll '.' _) false (hparent.trans hpart)

theorem isSafe_unknown : IsSafe ['u', 'n', 'k', 'n', 'o', 'w', 'n'] :=
  ⟨by simp, by simp, by simp [forbidden, Text.isControl], by decide, by simp⟩

theorem isSafe_sanitize (text : String) : IsSafe (sanitize text).toList := by
  unfold sanitize
  split
  · have hunknown : "unknown".toList = ['u', 'n', 'k', 'n', 'o', 'w', 'n'] := by decide
    rw [hunknown]
    exact isSafe_unknown
  · rename_i hne
    rw [String.toList_ofList]
    exact isSafe_characters hne

/-- A safe name is one component of a path, and neither the directory itself nor its parent. -/
theorem IsSafe.isName {name : String} (h : IsSafe name.toList) : Path.IsName name := by
  refine ⟨?_, fun c hc => ?_⟩
  · have hfirst : name.toList.head? ≠ some '.' := fun hdot => (h.first '.' hdot).1 rfl
    have hname : String.ofList name.toList = name := String.ofList_toList
    unfold Component.ofPiece?
    split
    · exact absurd ‹_› h.ne_nil
    · simp_all
    · simp_all
    · rw [hname]
  · rw [Path.isSeparator, beq_eq_false_iff_ne]
    rintro rfl
    exact (h.allowed '/' hc).1 (by decide)

end TraceExport.Segment

namespace TraceExport.Export

open Segment

theorem components_tracePath (cwd : Path) (runId : String) :
    (Trace.path cwd runId).components =
      (Trace.runsDir cwd).components ++ [.normal (sanitize runId)] ++ [.normal Trace.fileName] := by
  have hname : Path.IsName Trace.fileName :=
    Path.isName_of_length (by decide) (by simp [Trace.fileName, Path.isSeparator])
  rw [Trace.path, Path.components_join hname, Path.components_join (isSafe_sanitize runId).isName]

theorem isName_fileName (cwd spec : Path) : Path.IsName (fileName cwd spec) := by
  have hending : ∀ c ∈ ".spec.ts".toList, Path.isSeparator c = false := by
    simp [Path.isSeparator]
  refine Path.isName_of_length ?_ fun c hc => ?_
  · rw [fileName, String.toList_append, List.length_append]
    have hlength : ".spec.ts".toList.length = 8 := rfl
    omega
  · rw [fileName, String.toList_append, List.mem_append] at hc
    exact hc.elim ((isSafe_sanitize _).isName.noSeparator c) (hending c)

theorem components_path (cwd spec : Path) (dir : Option Path) :
    (path cwd spec dir).components =
      (directory cwd dir).components ++ [.normal (fileName cwd spec)] :=
  Path.components_join (isName_fileName cwd spec)

/-- Whatever it is made from, a name is safe. So the trace of a run lies in a directory of its own
right below that of the runs, and the test of a specification right below the export directory. -/
theorem components_below :
    (∀ text, IsSafe (sanitize text).toList) ∧
      (∀ cwd runId, (Trace.path cwd runId).components =
        (Trace.runsDir cwd).components ++ [.normal (sanitize runId), .normal "ir.jsonl"]) ∧
      ∀ cwd spec dir, ∃ stem, IsSafe stem.toList ∧ (path cwd spec dir).components =
        (directory cwd dir).components ++ [.normal (stem ++ ".spec.ts")] :=
  ⟨isSafe_sanitize, fun cwd runId => by simpa [Trace.fileName] using components_tracePath cwd runId,
    fun cwd spec dir => ⟨_, isSafe_sanitize _, components_path cwd spec dir⟩⟩

end TraceExport.Export
