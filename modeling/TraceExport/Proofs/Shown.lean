import TraceExport.Path.Shown
import TraceExport.Proofs.Normalization
import Mathlib.Data.List.TakeWhile

/-!
What a printed path tells. Below the root of the project it is the way from there, and of
an absolute path elsewhere it is the part from the artifacts on, the name of a test, or
nothing (`shownAs_shown`). So it starts with a slash only if the root of the project is
itself nowhere, being a relative path that leads back to where it starts
(`shown_reveals`).
-/

namespace TraceExport.Path

/-- An absolute path that is not below the root of the project. -/
def IsOutside (cwd p : Path) : Prop :=
  p.isAbsolute = true ∧ ¬ cwd.normalize.components <+: p.normalize.components

/-- A path outside of the project that has nothing on it that may be told. -/
structure IsUntold (cwd p : Path) : Prop where
  outside : IsOutside cwd p
  noArtifacts : .normal artifactsDir ∉ p.normalize.components
  noTest : ∀ name, p.normalize.fileName? = some name → ¬ ".spec.ts".toList <:+ name.toList

/-- The forms that a path may be printed in, and when it is printed so. -/
inductive ShownAs (cwd p : Path) : String → Prop where
  | below (rest : List Component)
      (h : p.normalize.components = cwd.normalize.components ++ rest) :
      ShownAs cwd p (slashed (rest.map Component.text))
  | relative (habove : ¬ cwd.normalize.components <+: p.normalize.components)
      (h : p.isAbsolute = false) : ShownAs cwd p p.normalize.slashText
  | artifacts (front tail : List Component) (houtside : IsOutside cwd p)
      (h : p.normalize.components = front ++ .normal artifactsDir :: tail)
      (hfirst : .normal artifactsDir ∉ front) :
      ShownAs cwd p (slashed (artifactsDir :: tail.map Component.text))
  | test (name : String) (houtside : IsOutside cwd p)
      (hnone : .normal artifactsDir ∉ p.normalize.components)
      (h : p.normalize.fileName? = some name) (hending : ".spec.ts".toList <:+ name.toList) :
      ShownAs cwd p name
  | untold (h : IsUntold cwd p) : ShownAs cwd p "[redacted]"

/-! ### The forms -/

/-- Components at the end of a normal path are resolved as well, and written as they are. -/
theorem exists_rest_eq_plain {p : Path} {front rest : List Component}
    (h : p.normalize.components = front ++ rest) : ∃ absolute up names,
      rest = plain absolute up names ∧ (∀ name ∈ names, IsName name) ∧
        (absolute = true ↔ p.isAbsolute = true ∧ front = []) := by
  rw [components_normalize] at h
  obtain ⟨absolute, up, names, hrest, hnames, habsolute⟩ := exists_eq_plain_of_append h
  exact ⟨absolute, up, names, hrest, fun name hname => isName_of_mem_way (hnames hname), habsolute⟩

theorem slashText_ofComponents_rest {p : Path} {front rest : List Component}
    (h : p.normalize.components = front ++ rest) :
    (ofComponents rest).slashText = slashed (rest.map Component.text) := by
  obtain ⟨absolute, up, names, rfl, hnames, -⟩ := exists_rest_eq_plain h
  exact slashText_ofComponents_plain hnames

theorem text_eq_artifactsDir {c : Component} : c.text = artifactsDir ↔ c = .normal artifactsDir := by
  cases c <;> simp [Component.text, artifactsDir]

theorem endsWith_iff {tail s : List Char} : Text.endsWith tail s = true ↔ tail <:+ s := by
  rw [Text.endsWith, Option.isSome_iff_exists]
  simp only [Text.dropSuffix?_eq_some]
  exact exists_congr fun front => eq_comm

theorem isUntold_of_fileName? {cwd p : Path} {name : String} (houtside : IsOutside cwd p)
    (hnone : .normal artifactsDir ∉ p.normalize.components)
    (hname : p.normalize.fileName? = some name) (hending : ¬ ".spec.ts".toList <:+ name.toList) :
    IsUntold cwd p := by
  refine ⟨houtside, hnone, fun other hother => ?_⟩
  rw [hname] at hother
  cases hother
  exact hending

theorem eq_false_of_dropWhile {f : Component → Bool} {cs tail : List Component} {c : Component}
    (h : cs.dropWhile f = c :: tail) : f c = false := by
  have hnot := List.head?_dropWhile_not f cs
  rw [h] at hnot
  simpa using hnot

theorem shownAs_shownOutside {cwd p : Path} (h : IsOutside cwd p) :
    ShownAs cwd p (shownOutside p.normalize) := by
  have hsplit := List.takeWhile_append_dropWhile (p := (·.text != artifactsDir))
    (l := p.normalize.components)
  have hfront : .normal artifactsDir ∉
      p.normalize.components.takeWhile (·.text != artifactsDir) := by
    intro hmem
    simpa [Component.text] using List.mem_takeWhile_imp hmem
  unfold shownOutside
  cases htail : p.normalize.components.dropWhile (·.text != artifactsDir) with
  | nil =>
      rw [htail, List.append_nil] at hsplit
      rw [hsplit] at hfront
      simp only [List.isEmpty_nil, if_true]
      split
      · rename_i name hname
        split
        · rename_i hending
          exact .test name h hfront hname (endsWith_iff.1 hending)
        · rename_i hending
          exact .untold (isUntold_of_fileName? h hfront hname (by rwa [← endsWith_iff]))
      · rename_i hnone
        exact .untold ⟨h, hfront, by simp [hnone]⟩
  | cons c tail =>
      have hfirst := eq_false_of_dropWhile htail
      rw [htail] at hsplit
      obtain rfl : c = .normal artifactsDir := by simpa [text_eq_artifactsDir] using hfirst
      simp only [List.isEmpty_cons, Bool.false_eq_true, if_false]
      rw [slashText_ofComponents_rest hsplit.symm]
      exact .artifacts _ tail h hsplit.symm hfront

theorem shownAs_shown (cwd p : Path) : ShownAs cwd p (shown cwd p) := by
  unfold shown
  simp only
  split
  · rename_i below hbelow
    obtain ⟨rest, hrest, rfl⟩ := Option.map_eq_some_iff.1 hbelow
    have hcomponents := below?_eq_some.1 hrest
    rw [slashText_ofComponents_rest hcomponents]
    exact .below rest hcomponents
  · rename_i hnone
    have habove : ¬ cwd.normalize.components <+: p.normalize.components := by
      rintro ⟨rest, hrest⟩
      rw [relativeTo?, below?_eq_some.2 hrest.symm] at hnone
      cases hnone
    rw [isAbsolute_normalize]
    split
    · rename_i habsolute
      exact shownAs_shownOutside ⟨habsolute, habove⟩
    · rename_i hrelative
      exact .relative habove (by simpa using hrelative)

/-! ### The first character -/

theorem head?_slashed_plain {absolute : Bool} {up : Nat} {names : List String}
    (hnames : ∀ name ∈ names, IsName name) :
    (slashed ((plain absolute up names).map Component.text)).toList.head? = some '/' ↔
      absolute = true := by
  cases absolute with
  | false =>
      rw [slashed_plain]
      simpa using head?_join_plainTexts hnames
  | true =>
      rw [plain_true, List.map_cons, slashed, String.toList_ofList, List.map_cons]
      cases (plain false up names).map Component.text <;> simp [Component.text, Text.join]

theorem isName_of_fileName? {p : Path} {name : String} (h : p.fileName? = some name) :
    IsName name := by
  unfold fileName? at h
  split at h
  · rename_i hlast
    cases h
    exact isName_of_mem_components (List.mem_of_getLast? hlast)
  · cases h

theorem ShownAs.head?_eq_slash_iff {cwd p : Path} {text : String} (h : ShownAs cwd p text) :
    text.toList.head? = some '/' ↔ cwd.normalize.components = [] ∧ p.isAbsolute = true := by
  have houtside : IsOutside cwd p → cwd.normalize.components ≠ [] := by
    rintro ⟨-, habove⟩ hnone
    rw [hnone] at habove
    exact habove List.nil_prefix
  cases h with
  | below rest h =>
      obtain ⟨absolute, up, names, rfl, hnames, habsolute⟩ := exists_rest_eq_plain h
      rw [head?_slashed_plain hnames, habsolute, and_comm]
  | relative habove h =>
      obtain ⟨absolute, up, names, hplain, hnames, habsolute⟩ :=
        exists_rest_eq_plain (List.nil_append p.normalize.components).symm
      rw [slashText, hplain, head?_slashed_plain hnames, habsolute, h]
      simp
  | artifacts front tail h =>
      have hhead : (slashed (artifactsDir :: tail.map Component.text)).toList.head? = some '.' := by
        rw [slashed, String.toList_ofList, List.map_cons]
        cases tail.map Component.text <;> simp [artifactsDir, Text.join]
      simp [hhead, houtside h]
  | test _ h hnone hname =>
      have hhead := (isName_of_fileName? hname).not_isAbsolute
      rw [isAbsolute_eq, decide_eq_false_iff_not] at hhead
      simp [hhead, houtside h]
  | untold h => simp [houtside h.outside]

/-! ### What is revealed -/

theorem shown_of_isUntold {cwd p : Path} (h : IsUntold cwd p) : shown cwd p = "[redacted]" := by
  have hform := shownAs_shown cwd p
  generalize shown cwd p = text at hform
  cases hform with
  | below rest hrest => exact absurd ⟨rest, hrest.symm⟩ h.outside.2
  | relative _ hrelative => exact absurd h.outside.1 (by simp [hrelative])
  | artifacts front tail _ hsplit => exact absurd (by simp [hsplit]) h.noArtifacts
  | test _ _ _ hname hending => exact absurd hending (h.noTest _ hname)
  | untold => rfl

/-- A path is printed in one of the forms, and absolutely only if it is absolute and the root of
the project comes to nothing. What is untold of two paths is not told by which of them is
printed. -/
theorem shown_reveals (cwd p : Path) :
    ShownAs cwd p (shown cwd p) ∧
      ((shown cwd p).toList.head? = some '/' ↔
        cwd.normalize.components = [] ∧ p.isAbsolute = true) ∧
      ∀ q, IsUntold cwd p → IsUntold cwd q → shown cwd p = shown cwd q :=
  ⟨shownAs_shown cwd p, (shownAs_shown cwd p).head?_eq_slash_iff, fun _ hp hq =>
    (shown_of_isUntold hp).trans (shown_of_isUntold hq).symm⟩

theorem shown_reveals_passwd :
    IsUntold ⟨"/home/user"⟩ ⟨"/etc/passwd"⟩ ∧ IsUntold ⟨"/home/user"⟩ ⟨"/srv/../etc/shadow"⟩ ∧
      ShownAs ⟨"/home/user"⟩ ⟨"/etc/passwd"⟩ (shown ⟨"/home/user"⟩ ⟨"/etc/passwd"⟩) ∧
      (shown ⟨"/home/user"⟩ ⟨"/etc/passwd"⟩).toList.head? ≠ some '/' ∧
      shown ⟨"/home/user"⟩ ⟨"/etc/passwd"⟩ = shown ⟨"/home/user"⟩ ⟨"/srv/../etc/shadow"⟩ := by
  have hpasswd : IsUntold ⟨"/home/user"⟩ ⟨"/etc/passwd"⟩ :=
    @isUntold_of_fileName? _ _ "passwd" ⟨by decide, by decide⟩ (by decide) (by decide +kernel)
      (by decide)
  have hshadow : IsUntold ⟨"/home/user"⟩ ⟨"/srv/../etc/shadow"⟩ :=
    @isUntold_of_fileName? _ _ "shadow" ⟨by decide, by decide⟩ (by decide) (by decide +kernel)
      (by decide)
  obtain ⟨hform, hhead, hsame⟩ := shown_reveals ⟨"/home/user"⟩ ⟨"/etc/passwd"⟩
  have hroot : (⟨"/home/user"⟩ : Path).normalize.components ≠ [] := by decide
  exact ⟨hpasswd, hshadow, hform, fun h => hroot (hhead.1 h).1, hsame _ hpasswd hshadow⟩

/-- From a root that comes to nothing every absolute path is below, and is told. -/
theorem shown_absolute :
    shown ⟨"."⟩ ⟨"/etc/passwd"⟩ = "//etc/passwd" ∧
      (shown ⟨"."⟩ ⟨"/etc/passwd"⟩).toList.head? = some '/' ∧
      shown ⟨"."⟩ ⟨"/etc/passwd"⟩ ≠ shown ⟨"."⟩ ⟨"/etc/shadow"⟩ := by
  decide +kernel

end TraceExport.Path
