import TraceExport.Export.Location
import TraceExport.Proofs.Path

/-!
Which test belongs to which specification. A test is named after the path of its
specification from the root of the project, with dashes for slashes. When the names on
that path are plain, nothing else about it changes (`fileName_plain`), so two such
specifications share a test only if their paths differ in nothing but slashes and
dashes. Within one directory, or where no name has a dash, they never do
(`eq_of_fileName_eq`).
-/

namespace TraceExport.Text

theorem replaceAll_eq_self {pattern s : List Char} (new : List Char) (h : ¬ pattern <:+: s) :
    replaceAll pattern new s = s := by
  fun_induction replaceAll pattern new s with
  | case1 => rfl
  | case2 => rfl
  | case3 c rest p ps after hdrop _ ih =>
      exact absurd (dropPrefix?_eq_some.1 hdrop ▸ (List.prefix_append _ after).isInfix) h
  | case4 c rest p ps hdrop ih =>
      rw [ih fun hin => h (hin.trans (List.suffix_cons c rest).isInfix)]

theorem trimEndOf_eq_self {p : Char → Bool} {s : List Char}
    (h : ∀ c, s.getLast? = some c → p c = false) : trimEndOf p s = s := by
  rcases List.eq_nil_or_concat s with rfl | ⟨front, c, rfl⟩
  · rfl
  · rw [List.concat_eq_append] at h ⊢
    exact trimEndOf_append (h c (by simp)) front []

theorem join_cons (separator piece : List Char) {pieces : List (List Char)} (h : pieces ≠ []) :
    join separator (piece :: pieces) = piece ++ separator ++ join separator pieces := by
  cases pieces with
  | nil => exact absurd rfl h
  | cons next pieces => rfl

theorem map_join (f : Char → Char) (separator : List Char) (pieces : List (List Char)) :
    (join separator pieces).map f = join (separator.map f) (pieces.map (·.map f)) := by
  induction pieces with
  | nil => rfl
  | cons piece pieces ih =>
      cases pieces with
      | nil => rfl
      | cons next pieces =>
          rw [join_cons _ _ (by simp), List.map_append, List.map_append, ih]
          rfl

/-- Joined pieces with a last one are its front and this piece. -/
theorem join_concat (separator : List Char) (pieces : List (List Char)) (last : List Char) :
    join separator (pieces ++ [last]) =
      (pieces.flatMap fun piece => piece ++ separator) ++ last := by
  induction pieces with
  | nil => rfl
  | cons piece pieces ih =>
      rw [List.cons_append, join_cons _ _ (by simp), ih, List.flatMap_cons]
      simp only [List.append_assoc]

theorem subset_join {separator piece : List Char} {pieces : List (List Char)}
    (h : piece ∈ pieces) : piece ⊆ join separator pieces := by
  induction pieces with
  | nil => cases h
  | cons first pieces ih =>
      cases pieces with
      | nil => simp [join, List.mem_singleton.1 h]
      | cons next pieces =>
          rw [join_cons _ _ (by simp)]
          rcases List.mem_cons.1 h with rfl | h
          · exact fun c hc => List.mem_append_left _ (List.mem_append_left _ hc)
          · exact fun c hc => List.mem_append_right _ (ih h hc)

end TraceExport.Text

namespace TraceExport.Segment

/-- A text that is a name as it stands. -/
structure IsPlain (s : List Char) : Prop where
  ne_nil : s ≠ []
  safe : ∀ c ∈ s, isUnsafe c = false ∧ isSeparator c = false
  noParent : ¬ ['.', '.'] <:+: s
  first : ∀ c, s.head? = some c → c ≠ '.' ∧ c ≠ '_'
  last : s.getLast? ≠ some '_'
  length : s.length ≤ maxLength

/-- The same in a form that can be decided. -/
theorem isPlain_iff {s : List Char} : IsPlain s ↔
    s ≠ [] ∧ (s.all fun c => !isUnsafe c && !isSeparator c) ∧ ¬ ['.', '.'] <:+: s ∧
      (s.head?.all fun c => c != '.' && c != '_') ∧ s.getLast? ≠ some '_' ∧
      s.length ≤ maxLength := by
  constructor
  · rintro ⟨hne, hsafe, hparent, hfirst, hlast, hlength⟩
    exact ⟨hne, by simpa using hsafe, hparent, by simpa [Option.all_eq_true] using hfirst, hlast,
      hlength⟩
  · rintro ⟨hne, hsafe, hparent, hfirst, hlast, hlength⟩
    exact ⟨hne, by simpa using hsafe, hparent, by simpa [Option.all_eq_true] using hfirst, hlast,
      hlength⟩

theorem collapse_eq_self {s : List Char} (h : ∀ c ∈ s, isSeparator c = false) (inRun : Bool) :
    collapse inRun s = s := by
  induction s generalizing inRun with
  | nil => rfl
  | cons c s ih =>
      obtain ⟨hc, hs⟩ := List.forall_mem_cons.1 h
      rw [collapse, if_neg (by simp [hc]), ih hs]

theorem trimmed_of_first {s : List Char}
    (hfirst : ∀ c, s.head? = some c → c ≠ '.' ∧ c ≠ '_') :
    trimmed s = Text.trimEndOf (· == '_') s := by
  have hfront : s.dropWhile (fun c => c == '.' || c == '_') = s := by
    cases s with
    | nil => rfl
    | cons c s =>
        obtain ⟨hdot, hscore⟩ := hfirst c rfl
        simp [hdot, hscore]
  rw [trimmed, hfront]

/-- The characters of a name before it is cut to its length. -/
def uncut (s : List Char) : List Char :=
  trimmed (collapse false (Text.replaceAll ['.', '.'] [] (s.filter (!isUnsafe ·))))

theorem characters_eq (s : List Char) : characters s = (uncut s).take maxLength := rfl

/-- A text that has the characters of a name and starts like one may lose no more than the
underscores at its end. -/
theorem uncut_of_safe {s : List Char}
    (hsafe : ∀ c ∈ s, isUnsafe c = false ∧ isSeparator c = false)
    (hparent : ¬ ['.', '.'] <:+: s) (hfirst : ∀ c, s.head? = some c → c ≠ '.' ∧ c ≠ '_') :
    uncut s = Text.trimEndOf (· == '_') s := by
  have hkept : s.filter (!isUnsafe ·) = s :=
    List.filter_eq_self.2 fun c hc => by simp [(hsafe c hc).1]
  rw [uncut, hkept, Text.replaceAll_eq_self [] hparent,
    collapse_eq_self (fun c hc => (hsafe c hc).2), trimmed_of_first hfirst]

theorem characters_of_safe {s : List Char}
    (hsafe : ∀ c ∈ s, isUnsafe c = false ∧ isSeparator c = false)
    (hparent : ¬ ['.', '.'] <:+: s) (hfirst : ∀ c, s.head? = some c → c ≠ '.' ∧ c ≠ '_')
    (hlength : s.length ≤ maxLength) : characters s = Text.trimEndOf (· == '_') s := by
  rw [characters_eq, uncut_of_safe hsafe hparent hfirst]
  exact List.take_of_length_le (Nat.le_trans (Text.trimEndOf_isPrefix _ s).length_le hlength)

theorem sanitize_plain {s : List Char} (h : IsPlain s) :
    sanitize (String.ofList s) = String.ofList s := by
  have hlast : Text.trimEndOf (· == '_') s = s := by
    refine Text.trimEndOf_eq_self fun c hc => ?_
    rw [beq_eq_false_iff_ne]
    rintro rfl
    exact h.last hc
  unfold sanitize
  rw [String.toList_ofList, characters_of_safe h.safe h.noParent h.first h.length, hlast]
  split
  · exact absurd rfl h.ne_nil
  · rfl

end TraceExport.Segment

namespace TraceExport.Path

theorem slashText_ofComponents {names : List String} (hnames : ∀ name ∈ names, IsName name) :
    (ofComponents (names.map .normal)).slashText.toList =
      Text.join ['/'] (names.map String.toList) := by
  have hplain : names.map Component.normal = plain false 0 names := by simp [plain]
  rw [hplain, slashText_ofComponents_plain hnames, slashed_plain]
  simp [plainTexts]

/-- The names that a resolved path ends in can stand between separators. -/
theorem isName_of_resolve {cwd p : Path} {front : List Component} {names : List String}
    (h : (resolve cwd p).components = front ++ names.map .normal) :
    ∀ name ∈ names, IsName name := by
  obtain ⟨absolute, up, all, hplain, hall⟩ := components_resolve cwd p
  intro name hname
  refine hall name ?_
  have hmem : Component.normal name ∈ plain absolute up all := by
    rw [← hplain, h]
    exact List.mem_append_right _ (List.mem_map_of_mem hname)
  simp only [plain, List.mem_append, List.mem_replicate, List.mem_map] at hmem
  rcases hmem with (hroot | ⟨-, hup⟩) | ⟨other, hother, heq⟩
  · cases absolute <;> simp at hroot
  · cases hup
  · cases heq
    exact hother

end TraceExport.Path

namespace TraceExport.Export

open TraceExport.Path

/-- A specification lies below the root of the project, in the last of some
directories, and is named `stem.md`. -/
def LiesAt (cwd spec : Path) (dirs : List String) (stem : String) : Prop :=
  (resolve cwd spec).components =
    cwd.normalize.components ++ (dirs ++ [stem ++ ".md"]).map .normal

instance (cwd spec : Path) (dirs : List String) (stem : String) :
    Decidable (LiesAt cwd spec dirs stem) :=
  inferInstanceAs (Decidable (_ = _))

/-- The path of a specification from the root of the project, without extension and
with dashes for slashes. -/
def dashed (dirs : List String) (stem : String) : List Char :=
  Text.join ['-'] ((dirs ++ [stem]).map String.toList)

theorem withoutMarkdown_append (s : List Char) : withoutMarkdown (s ++ ['.', 'm', 'd']) = s := by
  rw [withoutMarkdown, List.reverse_append]
  simp

theorem pathInProject_of_liesAt {cwd spec : Path} {dirs : List String} {stem : String}
    (h : LiesAt cwd spec dirs stem) : (pathInProject cwd spec).toList =
      Text.join ['/'] ((dirs ++ [stem]).map String.toList) ++ ['.', 'm', 'd'] := by
  unfold LiesAt at h
  generalize hname : stem ++ ".md" = name at h
  have hbelow : relativeTo? cwd.normalize (resolve cwd spec) =
      some (ofComponents ((dirs ++ [name]).map .normal)) := by
    rw [relativeTo?, below?_eq_some.2 h, Option.map_some]
  have hlast : name.toList = stem.toList ++ ['.', 'm', 'd'] := by
    have hextension : ".md".toList = ['.', 'm', 'd'] := by decide
    rw [← hname, String.toList_append, hextension]
  have hpath : pathInProject cwd spec =
      (ofComponents ((dirs ++ [name]).map .normal)).slashText := by
    unfold pathInProject
    simp only [hbelow]
  rw [hpath, slashText_ofComponents (isName_of_resolve h), List.map_append, List.map_append,
    List.map_singleton, List.map_singleton, Text.join_concat, Text.join_concat, hlast,
    List.append_assoc]

/-- A test has the dashed path of its specification for a name, if that can be a name
as it stands. -/
theorem fileName_plain {cwd spec : Path} {dirs : List String} {stem : String}
    (h : LiesAt cwd spec dirs stem) (hplain : Segment.IsPlain (dashed dirs stem)) :
    fileName cwd spec = String.ofList (dashed dirs stem) ++ ".spec.ts" := by
  have hkept : ∀ piece ∈ (dirs ++ [stem]).map String.toList,
      piece.map (fun c => if Segment.isSeparator c then '-' else c) = piece := by
    intro piece hpiece
    refine (List.map_congr_left fun c hc => ?_).trans (List.map_id _)
    have hsafe := (hplain.safe c (Text.subset_join hpiece hc)).2
    simp [hsafe]
  have hflat : (Text.join ['/'] ((dirs ++ [stem]).map String.toList)).map
      (fun c => if Segment.isSeparator c then '-' else c) = dashed dirs stem := by
    rw [Text.map_join, List.map_congr_left hkept, List.map_id']
    rfl
  simp only [fileName, pathInProject_of_liesAt h, withoutMarkdown_append, hflat,
    Segment.sanitize_plain hplain]

/-- Two plain specifications whose tests have one name are the same, if they lie in one
directory or no name on their paths has a dash. -/
theorem eq_of_fileName_eq {cwd spec spec' : Path} {dirs dirs' : List String}
    {stem stem' : String} (h : LiesAt cwd spec dirs stem) (h' : LiesAt cwd spec' dirs' stem')
    (hplain : Segment.IsPlain (dashed dirs stem)) (hplain' : Segment.IsPlain (dashed dirs' stem'))
    (hapart : dirs = dirs' ∨ ∀ name ∈ dirs ++ [stem] ++ (dirs' ++ [stem']), '-' ∉ name.toList)
    (heq : fileName cwd spec = fileName cwd spec') :
    (resolve cwd spec).components = (resolve cwd spec').components := by
  rw [fileName_plain h hplain, fileName_plain h' hplain', String.append_left_inj,
    String.ofList_inj] at heq
  have hnames : dirs ++ [stem] = dirs' ++ [stem'] := by
    rcases hapart with rfl | hdash
    · simp only [dashed, List.map_append, List.map_singleton, Text.join_concat,
        List.append_cancel_left_eq, String.toList_inj] at heq
      rw [heq]
    · have hread : ∀ names : List String, names ≠ [] → (∀ name ∈ names, '-' ∉ name.toList) →
          Text.splitOn (· == '-') (Text.join ['-'] (names.map String.toList)) =
            names.map String.toList := by
        intro names hne hnames
        refine Text.splitOn_join rfl (by simpa using hne) fun piece hpiece c hc => ?_
        obtain ⟨name, hname, rfl⟩ := List.mem_map.1 hpiece
        simpa using ne_of_mem_of_not_mem hc (hnames name hname)
      obtain ⟨hleft, hright⟩ := List.forall_mem_append.1 hdash
      have hsplit := congrArg (Text.splitOn (· == '-')) heq
      rw [dashed, dashed, hread _ (by simp) hleft, hread _ (by simp) hright] at hsplit
      exact List.map_injective_iff.2 (fun _ _ => String.toList_inj.1) hsplit
  obtain ⟨rfl, hlast⟩ := List.append_inj' hnames rfl
  obtain rfl : stem = stem' := by simpa using hlast
  exact h.trans h'.symm

end TraceExport.Export
