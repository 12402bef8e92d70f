import TraceExport.Proofs.Way

/-!
Paths and their components. The pieces of a path between its separators are
parents, names, and what stands for nothing. Once `.` and `..` are resolved, what is
left is the root, parents and names, in this order, and the path that is written
from them has just these components (`components_resolve`). A name that is joined to
a path comes after its components (`components_join`).
-/

namespace TraceExport.Text

variable {p : Char → Bool} {c : Char}

theorem splitOn_append (hc : p c) (s t : List Char) :
    splitOn p (s ++ c :: t) = splitOn p s ++ splitOn p t := by
  induction s with
  | nil => simp [splitOn, hc]
  | cons d s ih =>
      rw [List.cons_append, splitOn, splitOn, ih]
      split
      · rfl
      · cases hs : splitOn p s with
        | nil => exact absurd hs (splitOn_ne_nil p s)
        | cons piece pieces => rfl

theorem splitOn_eq_singleton {s : List Char} (hs : ∀ d ∈ s, p d = false) :
    splitOn p s = [s] := by
  induction s with
  | nil => rfl
  | cons d s ih =>
      obtain ⟨hd, hs⟩ := List.forall_mem_cons.1 hs
      rw [splitOn, hd, ih hs]
      rfl

theorem splitOn_join (hc : p c) {pieces : List (List Char)} (hne : pieces ≠ [])
    (hpieces : ∀ piece ∈ pieces, ∀ d ∈ piece, p d = false) :
    splitOn p (join [c] pieces) = pieces := by
  induction pieces with
  | nil => exact absurd rfl hne
  | cons piece pieces ih =>
      obtain ⟨hpiece, hpieces⟩ := List.forall_mem_cons.1 hpieces
      cases pieces with
      | nil => exact splitOn_eq_singleton hpiece
      | cons next pieces =>
          rw [join, List.append_assoc, List.singleton_append, splitOn_append hc,
            splitOn_eq_singleton hpiece, ih (by simp) hpieces]
          · rfl
          · simp

theorem exists_mem_consFirst {d : Char} {pieces : List (List Char)} :
    (∃ piece ∈ consFirst d pieces, c ∈ piece) ↔ c = d ∨ ∃ piece ∈ pieces, c ∈ piece := by
  cases pieces <;> simp [consFirst, or_assoc]

theorem exists_mem_splitOn {s : List Char} :
    (∃ piece ∈ splitOn p s, c ∈ piece) ↔ c ∈ s ∧ p c = false := by
  induction s with
  | nil => simp [splitOn]
  | cons d s ih =>
      rw [splitOn]
      split
      · rename_i hd
        have hne : p c = false → c ≠ d := by
          rintro hc rfl
          simp [hc] at hd
        simp only [List.mem_cons, exists_eq_or_imp, List.not_mem_nil, false_or, ih]
        grind
      · rename_i hd
        rw [exists_mem_consFirst, ih, List.mem_cons]
        grind

theorem eq_false_of_mem_splitOn {s piece : List Char} (h : piece ∈ splitOn p s) :
    ∀ d ∈ piece, p d = false :=
  fun _ hd => (exists_mem_splitOn.1 ⟨piece, h, hd⟩).2

theorem mem_join {separator : List Char} (hc : c ∉ separator) {pieces : List (List Char)} :
    c ∈ join separator pieces ↔ ∃ piece ∈ pieces, c ∈ piece := by
  induction pieces with
  | nil => simp [join]
  | cons piece pieces ih =>
      cases pieces with
      | nil => simp [join]
      | cons next pieces => simp [join, ih, hc]

end TraceExport.Text

namespace TraceExport.Path

open Text

/-! ### Pieces -/

/-- A name as it can stand between two separators. -/
structure IsName (name : String) : Prop where
  isPiece : Component.ofPiece? name.toList = some (.normal name)
  noSeparator : ∀ c ∈ name.toList, isSeparator c = false

theorem isName_of_length {name : String} (hlength : 2 < name.toList.length)
    (hsep : ∀ c ∈ name.toList, isSeparator c = false) : IsName name := by
  refine ⟨?_, hsep⟩
  have hname : String.ofList name.toList = name := String.ofList_toList
  unfold Component.ofPiece?
  split
  · simp_all
  · simp_all
  · simp_all
  · rw [hname]

theorem isName_of_ofPiece? {s piece : List Char} (hpiece : piece ∈ splitOn isSeparator s)
    {name : String} (h : Component.ofPiece? piece = some (.normal name)) : IsName name := by
  have hname : String.ofList piece = name := by
    unfold Component.ofPiece? at h
    split at h <;> simp_all
  subst hname
  exact ⟨by rwa [String.toList_ofList], by
    rw [String.toList_ofList]
    exact eq_false_of_mem_splitOn hpiece⟩

theorem ofPiece?_ne {piece : List Char} :
    Component.ofPiece? piece ≠ some .root ∧ Component.ofPiece? piece ≠ some .current := by
  unfold Component.ofPiece?
  split <;> simp

/-- The components of a text that is cut at its separators. -/
def named (s : List Char) : List Component :=
  (splitOn isSeparator s).filterMap Component.ofPiece?

theorem named_name {name : String} (h : IsName name) : named name.toList = [.normal name] := by
  rw [named, splitOn_eq_singleton h.noSeparator, List.filterMap_cons_some h.isPiece,
    List.filterMap_nil]

theorem named_append (s t : List Char) : named (s ++ '/' :: t) = named s ++ named t := by
  rw [named, splitOn_append rfl, List.filterMap_append]
  rfl

theorem components_eq (p : Path) : p.components =
    anchor (splitOn isSeparator p.text.toList) p.isAbsolute ++ named p.text.toList := rfl

theorem anchor_append {s : List Char} (absolute : Bool) (pieces : List (List Char)) :
    anchor (splitOn isSeparator s ++ pieces) absolute = anchor (splitOn isSeparator s) absolute := by
  unfold anchor
  cases hs : splitOn isSeparator s with
  | nil => exact absurd hs (splitOn_ne_nil _ s)
  | cons piece rest => rfl

theorem below?_eq_some {base p rest : List Component} :
    below? base p = some rest ↔ p = base ++ rest := by
  induction base generalizing p with
  | nil => simp [below?, eq_comm]
  | cons b base ih =>
      cases p with
      | nil => simp [below?]
      | cons c p =>
          by_cases hb : b = c
          · simp [below?, hb, ih]
          · simp [below?, hb, Ne.symm hb]

/-! ### Joining -/

theorem isAbsolute_eq {p : Path} : p.isAbsolute = decide (p.text.toList.head? = some '/') := by
  unfold isAbsolute startsWith
  cases p.text.toList with
  | nil => rfl
  | cons c s =>
      by_cases hc : c = '/'
      · simp [dropPrefix?, hc]
      · simp [dropPrefix?, hc, Ne.symm hc]

theorem components_slash {p : Path} {s t : List Char} (h : p.text.toList = s ++ '/' :: t) :
    p.components = anchor (splitOn isSeparator s) (decide ((s ++ ['/']).head? = some '/')) ++
      (named s ++ named t) := by
  have hhead : (s ++ '/' :: t).head? = (s ++ ['/']).head? := by cases s <;> rfl
  rw [components_eq, isAbsolute_eq, h, hhead, named_append, splitOn_append rfl, anchor_append]

theorem IsName.ne_nil {name : String} (h : IsName name) : name.toList ≠ [] := by
  intro hnil
  have hpiece := h.isPiece
  rw [hnil] at hpiece
  simp [Component.ofPiece?] at hpiece

theorem IsName.ne_current {name : String} (h : IsName name) : name.toList ≠ ['.'] := by
  intro hdot
  have hpiece := h.isPiece
  rw [hdot] at hpiece
  simp [Component.ofPiece?] at hpiece

theorem IsName.not_isAbsolute {name : String} (h : IsName name) :
    (⟨name⟩ : Path).isAbsolute = false := by
  rw [isAbsolute_eq, decide_eq_false_iff_not]
  intro hhead
  have hsep := h.noSeparator '/' (List.mem_of_head? hhead)
  simp [isSeparator] at hsep

theorem components_name {name : String} (h : IsName name) :
    (⟨name⟩ : Path).components = [.normal name] := by
  have hanchor : anchor [name.toList] false = [] := by simp [anchor, h.ne_current]
  rw [components_eq, h.not_isAbsolute, splitOn_eq_singleton h.noSeparator, hanchor, named_name h]
  rfl

/-- What is joined to a path comes after its components. -/
theorem components_join_relative {p q : Path} (hp : p.text ≠ "") (hq : q.isAbsolute = false) :
    (p.join q).components = p.components ++ named q.text.toList := by
  have hnonempty : p.text.isEmpty = false := by simpa using hp
  unfold join
  simp only [hq, hnonempty, Bool.false_eq_true, if_false, Bool.false_or]
  split
  · rename_i hslash
    obtain ⟨front, hfront⟩ := Option.isSome_iff_exists.1 hslash
    have hp := dropSuffix?_eq_some.1 hfront
    have hjoined : (p.text ++ q.text).toList = front ++ '/' :: q.text.toList := by simp [hp]
    rw [components_slash hjoined, components_slash hp]
    simp [named, splitOn, Component.ofPiece?]
  · have hjoined : (p.text ++ "/" ++ q.text).toList = p.text.toList ++ '/' :: q.text.toList := by
      simp
    have hhead : (p.text.toList ++ ['/']).head? = p.text.toList.head? := by
      cases htext : p.text.toList with
      | nil => simp_all
      | cons c s => rfl
    rw [components_slash hjoined, components_eq, isAbsolute_eq, hhead, List.append_assoc]

theorem components_join {p : Path} {name : String} (h : IsName name) :
    (p.join ⟨name⟩).components = p.components ++ [.normal name] := by
  by_cases hempty : p.text = ""
  · obtain ⟨text⟩ := p
    obtain rfl : text = "" := hempty
    have hnone : (⟨""⟩ : Path).components = [] := by decide
    have hjoin : join ⟨""⟩ ⟨name⟩ = ⟨name⟩ := by simp [join, h.not_isAbsolute]
    rw [hjoin, hnone, components_name h]
    rfl
  · rw [components_join_relative hempty h.not_isAbsolute, named_name h]

/-! ### Resolving -/

theorem root_notMem_named (s : List Char) : .root ∉ named s := by
  intro hmem
  obtain ⟨piece, -, hpiece⟩ := List.mem_filterMap.1 hmem
  exact ofPiece?_ne.1 hpiece

/-- Only the anchor can hold the root, and it does so in front. -/
theorem components_eq_root (p : Path) : ∃ cs, .root ∉ cs ∧
    p.components = (if p.isAbsolute then [.root] else []) ++ cs := by
  have hnamed := root_notMem_named p.text.toList
  rw [components_eq]
  unfold anchor
  split
  · exact ⟨_, hnamed, rfl⟩
  · split
    · exact ⟨.current :: named p.text.toList, by simpa using hnamed, rfl⟩
    · exact ⟨_, hnamed, rfl⟩

theorem settled_components (p : Path) : settled p.components =
    plain p.isAbsolute ((way p.components).up % 2) (way p.components).down := by
  obtain ⟨cs, hcs, hcomponents⟩ := components_eq_root p
  have hway : way p.components = way cs := by
    rw [hcomponents, way_append]
    split <;> simp [way, stepOf]
  rw [hway, hcomponents, settled_eq p.isAbsolute hcs]

theorem isName_of_mem_components {p : Path} {name : String} (h : .normal name ∈ p.components) :
    IsName name := by
  have hmem : .normal name ∈ named p.text.toList := by
    rw [components_eq, List.mem_append] at h
    refine h.resolve_left fun hanchor => ?_
    unfold anchor at hanchor
    split at hanchor
    · simp at hanchor
    · split at hanchor <;> simp at hanchor
  obtain ⟨piece, hpiece, hname⟩ := List.mem_filterMap.1 hmem
  exact isName_of_ofPiece? hpiece hname

theorem isName_of_mem_way {p : Path} {name : String} (h : name ∈ (way p.components).down) :
    IsName name :=
  isName_of_mem_components (mem_of_mem_way h)

/-- The texts of the parents and the names of a plain list of components. -/
def plainTexts (up : Nat) (names : List String) : List (List Char) :=
  List.replicate up "..".toList ++ names.map String.toList

section

variable {up : Nat} {names : List String}

theorem slashed_plain : (slashed ((plain false up names).map Component.text)).toList =
    Text.join ['/'] (plainTexts up names) := by
  simp [slashed, plain, plainTexts, Component.text, Function.comp_def]

theorem of_mem_plainTexts (hnames : ∀ name ∈ names, IsName name) {piece : List Char}
    (h : piece ∈ plainTexts up names) :
    (∀ c ∈ piece, isSeparator c = false) ∧ piece ≠ [] ∧ piece ≠ ['.'] := by
  rcases List.mem_append.1 h with h | h
  · rw [List.eq_of_mem_replicate h]
    simp [isSeparator]
  · obtain ⟨name, hname, rfl⟩ := List.mem_map.1 h
    have hname := hnames name hname
    exact ⟨hname.noSeparator, hname.ne_nil, hname.ne_current⟩

theorem named_join_plainTexts (hnames : ∀ name ∈ names, IsName name) :
    named (Text.join ['/'] (plainTexts up names)) = plain false up names := by
  have hpieces : (plainTexts up names).filterMap Component.ofPiece? = plain false up names := by
    have hfirst : (List.replicate up "..".toList).filterMap Component.ofPiece? =
        List.replicate up .parent := List.filterMap_replicate_of_some rfl
    have hrest : (names.map String.toList).filterMap Component.ofPiece? = names.map .normal := by
      rw [List.filterMap_map, ← List.filterMap_eq_map]
      exact List.filterMap_congr fun name hname => (hnames name hname).isPiece
    rw [plainTexts, List.filterMap_append, hfirst, hrest]
    rfl
  by_cases hnone : plainTexts up names = []
  · rw [← hpieces, hnone]
    rfl
  · have hslash : isSeparator '/' = true := rfl
    rw [named, splitOn_join hslash hnone fun piece h => (of_mem_plainTexts hnames h).1, hpieces]

/-- The first piece is not empty, as it is in front of the root. -/
theorem head?_join_plainTexts (hnames : ∀ name ∈ names, IsName name) :
    (Text.join ['/'] (plainTexts up names)).head? ≠ some '/' := by
  cases hpieces : plainTexts up names with
  | nil => simp [Text.join]
  | cons piece pieces =>
      have hpiece : piece ∈ plainTexts up names := hpieces ▸ List.mem_cons_self
      obtain ⟨hsep, hne, -⟩ := of_mem_plainTexts hnames hpiece
      obtain ⟨c, s, rfl⟩ := List.exists_cons_of_ne_nil hne
      have hhead : (Text.join ['/'] ((c :: s) :: pieces)).head? = some c := by
        cases pieces <;> rfl
      rw [hhead]
      rintro ⟨⟩
      exact absurd (hsep '/' List.mem_cons_self) (by decide)

/-- The path that is written from plain components has these components. -/
theorem components_ofComponents_plain {absolute : Bool} (hnames : ∀ name ∈ names, IsName name) :
    (ofComponents (plain absolute up names)).components = plain absolute up names := by
  cases absolute with
  | true =>
      have htext : (ofComponents (plain true up names)).text.toList =
          [] ++ '/' :: Text.join ['/'] (plainTexts up names) := by
        rw [← slashed_plain]
        simp [ofComponents, plain]
      rw [components_slash htext, named_join_plainTexts hnames]
      rfl
  | false =>
      have hpath : ofComponents (plain false up names) =
          ⟨slashed ((plain false up names).map Component.text)⟩ := by
        cases up with
        | zero => cases names <;> rfl
        | succ up => rfl
      have htext : (ofComponents (plain false up names)).text.toList =
          Text.join ['/'] (plainTexts up names) := by rw [hpath, slashed_plain]
      have hanchor : anchor (splitOn isSeparator (Text.join ['/'] (plainTexts up names)))
          (ofComponents (plain false up names)).isAbsolute = [] := by
        rw [isAbsolute_eq, htext, decide_eq_false (head?_join_plainTexts hnames)]
        by_cases hnone : plainTexts up names = []
        · rw [hnone]
          rfl
        · have hslash : isSeparator '/' = true := rfl
          rw [splitOn_join hslash hnone fun piece h => (of_mem_plainTexts hnames h).1, anchor,
            if_neg (by simp), if_neg]
          intro hdot
          exact (of_mem_plainTexts hnames (List.mem_of_mem_head? hdot)).2.2 rfl
      rw [components_eq, htext, hanchor, named_join_plainTexts hnames]
      rfl

end

theorem components_normalize (p : Path) : p.normalize.components =
    plain p.isAbsolute ((way p.components).up % 2) (way p.components).down := by
  rw [normalize, settled_components,
    components_ofComponents_plain fun name hname => isName_of_mem_way hname]

/-- A path that is written from plain components shows just these. -/
theorem slashText_ofComponents_plain {absolute : Bool} {up : Nat} {names : List String}
    (hnames : ∀ name ∈ names, IsName name) : (ofComponents (plain absolute up names)).slashText =
      slashed ((plain absolute up names).map Component.text) := by
  rw [slashText, components_ofComponents_plain hnames]

theorem components_resolve (cwd p : Path) : ∃ absolute up names,
    (resolve cwd p).components = plain absolute up names ∧ ∀ name ∈ names, IsName name := by
  have hnormal : ∀ q : Path, ∃ absolute up names,
      q.normalize.components = plain absolute up names ∧ ∀ name ∈ names, IsName name :=
    fun q => ⟨_, _, _, components_normalize q, fun name hname => isName_of_mem_way hname⟩
  unfold resolve
  split
  · exact hnormal p
  · exact hnormal (cwd.join p)

end TraceExport.Path
