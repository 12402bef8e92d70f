import TraceExport.Proofs.Resolution
import TraceExport.Proofs.Written
import TraceExport.Url.Origin

/-!
Where the address of a record goes once only what follows its origin is left of it.
-/

namespace TraceExport.Url

open Text

/-- The path of a URL that opens with one slash, as a reference. -/
theorem follow?_path {base : Url} (hbase : SchemeKind.of base.scheme = .special) {path : UrlPath}
    (hpath : IsPath path) (hslashes : startsWith ['/', '/'] path.text.toList = false)
    (last : Bool) : follow? base last path.text.toList = some (base.authority, path) := by
  have hback := hpath.backslash_not_mem
  obtain ⟨segments, hne, hsegments, rfl⟩ := hpath
  have hread := pathSegments_join hne hsegments
  rw [text_ofSegments hne] at hslashes hback ⊢
  have hfirst : SchemeKind.special.isSlash '/' = true := rfl
  unfold follow?
  simp only [hbase]
  cases hjoin : join ['/'] segments with
  | nil =>
      rw [hjoin] at hread
      simp [hread, hfirst]
  | cons d host =>
      rw [hjoin] at hread hslashes hback
      have hd : SchemeKind.special.isSlash d = false := by
        have hslash : d ≠ '/' := by
          rintro rfl
          simp [startsWith, dropPrefix?] at hslashes
        have hmem : d ≠ '\\' := by
          rintro rfl
          simp at hback
        simp [SchemeKind.isSlash, hslash, hmem]
      simp [hread, hd, hfirst]

/-- What follows the origin of a URL has no scheme. -/
theorem resolve?_eq_followed? {u : Url} (hu : IsTail u) (base : Url) :
    resolve? base (u.path.text ++ marked "?" u.query ++ marked "#" u.fragment) =
      followed? base u.path.text.toList (u.query.map String.toList)
        (u.fragment.map String.toList) := by
  obtain ⟨segments, hne, -, hroot⟩ := hu.path
  have hvisible := hu.isVisible_append hu.isVisible_path
  obtain ⟨hhash, hmark⟩ := cutAt_parts
    (not_mem_of_escaped hu.path.written rfl) (not_mem_of_escaped hu.path.written rfl)
    hu.hash_not_mem_query u.fragment
  have hscheme : readScheme? u.path.text.toList = none := by
    rw [hroot, text_ofSegments hne, readScheme?_eq_none rfl rfl]
  unfold resolve?
  simp only [String.toList_append, hvisible.withoutOuter_eq_self, hhash, hmark, hscheme]

theorem IsTail.solid_path {u : Url} (hu : IsTail u) :
    solid u.path.text.toList = u.path.text.toList :=
  IsPrintable.solid_eq_self fun c hc => (hu.isVisible_path c hc).1

/-- A path that opens with one slash leads to itself on the authority of the base. -/
theorem resolve?_tail {base u : Url} (hbase : SchemeKind.of base.scheme = .special)
    (hpath : IsPath base.path) (hu : IsTail u)
    (hslashes : startsWith ['/', '/'] u.path.text.toList = false) :
    resolve? base (u.path.text ++ marked "?" u.query ++ marked "#" u.fragment) =
      some { base with path := u.path, query := u.query, fragment := u.fragment } := by
  obtain ⟨folders, -, -, hfolders⟩ := hpath
  have hfollow := follow?_path hbase hu.path hslashes
    ((u.query.map String.toList).isNone && (u.fragment.map String.toList).isNone)
  have hkind : SchemeKind.special.isSpecial = true := rfl
  have hempty : u.path.text.toList.isEmpty = false := by
    obtain ⟨segments, hne, -, hroot⟩ := hu.path
    simp [hroot, text_ofSegments hne]
  rw [resolve?_eq_followed? hu]
  unfold followed?
  simp only [hbase, hu.solid_path, hfolders, ofSegments, hfollow, hkind, hempty, if_true,
    hu.escape_query, hu.escape_fragment]
  rfl

/-! ### How many segments -/

theorem length_consFirst (c : Char) {pieces : List (List Char)} (h : pieces ≠ []) :
    (consFirst c pieces).length = pieces.length := by
  cases pieces with
  | nil => exact absurd rfl h
  | cons piece pieces => rfl

theorem length_splitOn (p : Char → Bool) (s : List Char) :
    (splitOn p s).length = s.countP p + 1 := by
  induction s with
  | nil => rfl
  | cons c s ih =>
      rw [splitOn]
      split
      · rename_i hc
        rw [List.length_cons, ih, List.countP_cons_of_pos hc]
      · rename_i hc
        rw [length_consFirst c (splitOn_ne_nil p s), ih, List.countP_cons_of_neg hc]

theorem Walk.length_segments_read (segments : List (List Char)) (w : Walk) :
    (w.read .special segments).segments.length ≤ w.segments.length + segments.length := by
  induction segments generalizing w with
  | nil => exact le_refl _
  | cons segment rest ih =>
      have hup : w.up.segments.length ≤ w.segments.length := by
        unfold up goUp
        split
        · simp
        · split <;> simp [*]
      have hstay : ∀ w' : Walk,
          (if rest.isEmpty then w'.push [] else w').segments.length ≤ w'.segments.length + 1 := by
        intro w'
        split <;> simp [push]
      rw [read, List.length_cons]
      split
      · have hlast := hstay w.up
        refine (ih _).trans ?_
        simp only
        omega
      split
      · have hlast := hstay w
        refine (ih _).trans ?_
        simp only
        omega
      · refine (ih _).trans ?_
        rw [add_eq_push (by decide), push, List.length_cons]
        omega

theorem length_pathSegments (s : List Char) :
    (pathSegments .special s).length ≤ s.countP SchemeKind.special.isSlash + 1 := by
  have hread := Walk.length_segments_read (splitOn SchemeKind.special.isSlash s) Walk.start
  rw [length_splitOn] at hread
  rw [pathSegments, readPath, List.length_reverse]
  simpa [Walk.start] using hread

/-- A path has a slash for each segment. -/
theorem countP_text {segments : List (List Char)} (h : ∀ s ∈ segments, IsSegment s) :
    (ofSegments segments).text.toList.countP SchemeKind.special.isSlash = segments.length := by
  rw [ofSegments, UrlPath.text, String.toList_ofList, List.flatMap_map]
  simp only [String.toList_ofList]
  induction segments with
  | nil => rfl
  | cons segment rest ih =>
      obtain ⟨hsegment, hrest⟩ := List.forall_mem_cons.1 h
      have hcount := ih hrest
      have hnone : segment.countP SchemeKind.special.isSlash = 0 :=
        List.countP_eq_zero.2 fun c hc => by simp [hsegment.whole c hc]
      rw [List.flatMap_cons, List.countP_append, List.countP_cons_of_pos rfl, hnone, ih hrest,
        List.length_cons]
      omega

theorem countP_pathAfterAuthority {s : List Char}
    (h : ∀ c ∈ s.head?, SchemeKind.special.isSlash c) :
    (pathAfterAuthority .special s).text.toList.countP SchemeKind.special.isSlash ≤
      max 1 (s.countP SchemeKind.special.isSlash) := by
  cases s with
  | nil => exact Nat.le_trans (by decide) (Nat.le_max_left 1 _)
  | cons c rest =>
      have hc : SchemeKind.special.isSlash c := h c rfl
      have hlength := length_pathSegments rest
      rw [pathAfterAuthority, if_pos hc, countP_text (isSegment_of_mem_pathSegments rest),
        List.countP_cons_of_pos hc]
      exact Nat.le_trans hlength (Nat.le_max_right 1 _)

/-- Behind two slashes stands another authority, so that the path has fewer slashes. -/
theorem countP_follow? {base : Url} (hbase : SchemeKind.of base.scheme = .special) {last : Bool}
    {s : List Char} {authority : Option Authority} {path : UrlPath}
    (h : follow? base last ('/' :: '/' :: s) = some (authority, path)) :
    path.text.toList.countP SchemeKind.special.isSlash <
      ('/' :: '/' :: s).countP SchemeKind.special.isSlash := by
  have hfirst : SchemeKind.special.isSlash '/' = true := rfl
  have hkind : SchemeKind.special.isSpecial = true := rfl
  unfold follow? at h
  simp only [hbase, hfirst, hkind, if_true, Option.map_eq_some_iff] at h
  obtain ⟨⟨a, p⟩, hread, heq⟩ := h
  cases heq
  obtain ⟨_, rest, _, _, hsplit, -, -, -, hpath⟩ := of_readAuthority? hread
  rw [splitAuthority_special] at hsplit
  obtain ⟨-, rfl⟩ := Prod.mk.inj hsplit
  have hhead : ∀ c ∈ ((s.dropWhile SchemeKind.special.isSlash).dropWhile
      (!SchemeKind.special.isSlash ·)).head?, SchemeKind.special.isSlash c := by
    intro c hc
    have hnot := List.head?_dropWhile_not (!SchemeKind.special.isSlash ·)
      (s.dropWhile SchemeKind.special.isSlash)
    rw [Option.mem_def.1 hc] at hnot
    simpa using hnot
  have hcount := countP_pathAfterAuthority hhead
  have hsub : ((s.dropWhile SchemeKind.special.isSlash).dropWhile
      (!SchemeKind.special.isSlash ·)).Sublist s :=
    (List.dropWhile_sublist _).trans (List.dropWhile_sublist _)
  have hle := hsub.countP_le (p := SchemeKind.special.isSlash)
  simp only [hpath]
  rw [List.countP_cons_of_pos hfirst, List.countP_cons_of_pos hfirst]
  omega

theorem followed?_special {base : Url} (hbase : SchemeKind.of base.scheme = .special)
    (hpath : IsPath base.path) {main : List Char} {query fragment : Option (List Char)} {v : Url}
    (h : followed? base main query fragment = some v) : ∃ authority,
      follow? base (query.isNone && fragment.isNone) (solid main) = some (authority, v.path) := by
  obtain ⟨folders, -, -, hfolders⟩ := hpath
  unfold followed? at h
  simp only [hbase, hfolders, ofSegments] at h
  simp only [Option.bind_eq_bind, Option.bind_eq_some_iff, reduceCtorEq, if_false] at h
  obtain ⟨⟨authority, path⟩, hfollow, heq⟩ := h
  cases heq
  exact ⟨authority, hfollow⟩

/-- A path that opens with two slashes leads to another path. -/
theorem path_ne_of_slashes {base u v : Url} (hbase : SchemeKind.of base.scheme = .special)
    (hpath : IsPath base.path) (hu : IsTail u)
    (hslashes : startsWith ['/', '/'] u.path.text.toList)
    (h : resolve? base (u.path.text ++ marked "?" u.query ++ marked "#" u.fragment) = some v) :
    v.path.text ≠ u.path.text := by
  rw [resolve?_eq_followed? hu] at h
  obtain ⟨authority, hfollow⟩ := followed?_special hbase hpath h
  obtain ⟨s, hs⟩ : ∃ s, u.path.text.toList = '/' :: '/' :: s := by
    obtain ⟨s, hs⟩ := Option.isSome_iff_exists.1 hslashes
    exact ⟨s, dropPrefix?_eq_some.1 hs⟩
  rw [hu.solid_path, hs] at hfollow
  have hcount := countP_follow? hbase hfollow
  intro heq
  rw [heq, hs] at hcount
  exact lt_irrefl _ hcount

/-! ### Origins -/

theorem origin?_of_ne_blob {u : Url} (h : u.scheme ≠ "blob") :
    u.origin? = (usualPort? u.scheme).bind fun usual => u.authority.bind fun authority =>
      authority.host.bind fun host =>
        some ⟨u.scheme, host, authority.port.getD usual⟩ := by
  rw [origin?, originWithin?, if_neg h]
  rfl

theorem special_of_origin? {u : Url} (h : u.scheme ≠ "blob") {o : Origin}
    (ho : u.origin? = some o) : SchemeKind.of u.scheme = .special := by
  rw [origin?_of_ne_blob h] at ho
  obtain ⟨usual, husual, -⟩ := Option.bind_eq_some_iff.1 ho
  have hfile : u.scheme ≠ "file" := by
    intro heq
    have hnone : usualPort? "file" = none := by decide
    rw [heq, hnone] at husual
    cases husual
  rw [SchemeKind.of, if_neg hfile, husual]
  rfl

theorem of_relativeToOrigin? {base url path : String} (h : relativeToOrigin? base url = some path) :
    ∃ b u o, parse? base = some b ∧ parse? url = some u ∧ b.origin? = some o ∧
      u.origin? = some o ∧ path = u.afterOrigin := by
  unfold relativeToOrigin? at h
  simp only [Option.bind_eq_bind, Option.bind_eq_some_iff] at h
  obtain ⟨u, hu, b, hb, o, huo, o', hbo, h⟩ := h
  split at h
  · rename_i heq
    cases h
    exact ⟨b, u, o, hb, hu, heq ▸ hbo, huo, rfl⟩
  · simp at h

/-- The URL without an empty query or fragment. -/
def trimmed (u : Url) : Url :=
  { u with query := u.query.filter (· != ""), fragment := u.fragment.filter (· != "") }

theorem IsTail.trimmed {u : Url} (h : IsTail u) : IsTail u.trimmed where
  path := h.path
  query := fun text htext => h.query text (Option.filter_eq_some_iff.1 htext).1
  fragment := fun text htext => h.fragment text (Option.filter_eq_some_iff.1 htext).1

theorem afterOrigin_eq (u : Url) : u.afterOrigin = u.trimmed.path.text ++
    marked "?" u.trimmed.query ++ marked "#" u.trimmed.fragment := rfl

/-- A reference leads from a base to a place of the same origin, path, query and fragment as a
URL; an empty query or fragment counts as none. -/
def LeadsTo (base : Url) (reference : String) (u : Url) : Prop :=
  ∃ v, resolve? base reference = some v ∧ v.origin? = u.origin? ∧ v.path.text = u.path.text ∧
    v.query.filter (· != "") = u.query.filter (· != "") ∧
    v.fragment.filter (· != "") = u.fragment.filter (· != "")

theorem leadsTo_afterOrigin {b u : Url} {base url : String} (hb : parse? base = some b)
    (hu : parse? url = some u) {o : Origin} (hbo : b.origin? = some o) (huo : u.origin? = some o)
    (hbBlob : b.scheme ≠ "blob") (huBlob : u.scheme ≠ "blob") :
    LeadsTo b u.afterOrigin u ↔ startsWith ['/', '/'] u.path.text.toList = false := by
  have hbase := special_of_origin? hbBlob hbo
  have hpath := (isTail_of_parse? hb hbase).path
  have htail := (isTail_of_parse? hu (special_of_origin? huBlob huo)).trimmed
  rw [afterOrigin_eq]
  constructor
  · rintro ⟨v, hv, -, heq, -⟩
    refine Bool.eq_false_iff.2 fun hslashes => ?_
    exact path_ne_of_slashes hbase hpath htail hslashes hv heq
  · intro hslashes
    refine ⟨_, resolve?_tail hbase hpath htail hslashes, ?_, rfl, ?_, ?_⟩
    · rw [huo, ← hbo, origin?_of_ne_blob hbBlob]
      exact origin?_of_ne_blob hbBlob
    · simp [trimmed, Option.filter_filter]
    · simp [trimmed, Option.filter_filter]

/-! ### Blobs -/

/-- An absolute URL opens with the letter of a scheme. -/
theorem head_of_parse? {t : String} {u : Url} (h : parse? t = some u) :
    ∃ c s, t.toList.dropWhile isOuter = c :: s ∧ c.isAlpha := by
  obtain ⟨front, fragment, main, query, body, hfront, hmain, hscheme, -⟩ := of_parse? h
  obtain ⟨name, hname, c, hc, halpha⟩ := of_readScheme? hscheme
  have hprefix := mainOf_prefix t.toList
  rw [mainOf_eq hfront hmain, hname] at hprefix
  cases hdrop : t.toList.dropWhile isOuter with
  | nil => simp [hdrop] at hprefix
  | cons d s =>
      have houter := List.head?_dropWhile_not isOuter t.toList
      rw [hdrop] at houter hprefix
      have htab : isTabOrBreak d = false := by
        have hne : ∀ e, isOuter e → d ≠ e := by
          rintro e he rfl
          simp [he] at houter
        simp [isTabOrBreak, hne '\t' rfl, hne '\n' rfl, hne '\r' rfl]
      cases name with
      | nil => simp [solid] at hc
      | cons e name =>
          obtain ⟨rfl, -⟩ := List.cons_prefix_cons.1 hprefix
          simp [solid, htab] at hc
          exact ⟨e, s, rfl, hc ▸ halpha⟩

theorem rootless_of_readAuthority? {kind : SchemeKind} {scheme : String} {last : Bool}
    {s : List Char} {a : Authority} {path : UrlPath}
    (h : readAuthority? kind scheme last s = some (a, path)) : ∃ names, path = .segments names := by
  obtain ⟨-, rest, -, -, -, -, -, -, rfl⟩ := of_readAuthority? h
  unfold pathAfterAuthority
  split
  · split <;> exact ⟨_, rfl⟩
  · split <;> exact ⟨_, rfl⟩

/-- A rootless path is what follows the scheme, escaped. -/
theorem of_rootless {t : String} {u : Url} (h : parse? t = some u)
    (hother : SchemeKind.of u.scheme = .other) {path : String}
    (hpath : u.path = .rootless path) : ∃ name body, mainOf t.toList = name ++ ':' :: body ∧
      path.toList = escape isAlwaysEscaped (solid body) := by
  obtain ⟨front, fragment, main, query, body, hfront, hmain, hscheme, hbody, -⟩ := of_parse? h
  obtain ⟨name, hname, -⟩ := of_readScheme? hscheme
  refine ⟨name, body, by rw [mainOf_eq hfront hmain, hname], ?_⟩
  rw [readBody?, hother, hpath] at hbody
  split at hbody
  · simp_all
  · simp_all
  · obtain ⟨⟨a, read⟩, hread, heq⟩ := Option.map_eq_some_iff.1 hbody
    obtain ⟨names, rfl⟩ := rootless_of_readAuthority? hread
    cases congrArg Prod.snd heq
  · cases congrArg Prod.snd (Option.some.inj hbody)
  · cases congrArg Prod.snd (Option.some.inj hbody)
    rw [String.toList_ofList]

theorem text_ne_of_segments {path : String} {c : Char} {s : List Char}
    (hdrop : path.toList.dropWhile isOuter = c :: s) (halpha : c.isAlpha) (names : List String) :
    (UrlPath.segments names).text ≠ path := by
  rintro rfl
  rw [UrlPath.text, String.toList_ofList] at hdrop
  cases names with
  | nil => simp at hdrop
  | cons name names =>
      have hslash : isOuter '/' = false := rfl
      simp only [List.flatMap_cons, List.cons_append, List.dropWhile_cons, hslash,
        Bool.false_eq_true, if_false, List.cons.injEq] at hdrop
      rw [← hdrop.1] at halpha
      exact absurd halpha (by decide)

/-- A URL whose origin is that of a URL inside it. -/
theorem of_blob {u : Url} (h : u.scheme = "blob") {o : Origin} (ho : u.origin? = some o) :
    ∃ path c s, u.path = .rootless path ∧ path.toList.dropWhile isOuter = c :: s ∧ c.isAlpha := by
  rw [origin?, originWithin?, if_pos h] at ho
  obtain ⟨w, hw, -⟩ := Option.bind_eq_some_iff.1 ho
  obtain ⟨c, s, hdrop, halpha⟩ := head_of_parse? hw
  cases hpath : u.path with
  | rootless path => exact ⟨path, c, s, rfl, by simpa [hpath, UrlPath.text] using hdrop, halpha⟩
  | segments names =>
      rw [hpath] at hdrop
      exact absurd rfl (text_ne_of_segments hdrop halpha names)

theorem ne_of_isAlpha {c d : Char} (h : c.isAlpha) (hd : d.isAlpha = false) : c ≠ d := by
  rintro rfl
  simp [h] at hd

/-- A text that lacks the first character of another one ends before it. -/
theorem prefix_of_head_not_mem {l s t : List Char} (h : l <+: s ++ t) (ht : ∀ d ∈ t.head?, d ∉ l) :
    l <+: s := by
  rcases List.prefix_or_prefix_of_prefix h (List.prefix_append s t) with hl | ⟨rest, rfl⟩
  · exact hl
  · rw [List.prefix_append_right_inj] at h
    cases rest with
    | nil => simp
    | cons d rest =>
        cases t with
        | nil => simp at h
        | cons e t =>
            obtain ⟨rfl, -⟩ := List.cons_prefix_cons.1 h
            exact absurd (by simp) (ht d rfl)

theorem marks_not_mem_mainOf (s : List Char) : '#' ∉ mainOf s ∧ '?' ∉ mainOf s := by
  constructor
  · intro h
    have hmem := (List.takeWhile_prefix _).subset h
    have hall := List.all_eq_true.1 List.all_takeWhile _ hmem
    simp at hall
  · intro h
    have hall := List.all_eq_true.1 List.all_takeWhile _ h
    simp at hall

theorem follow?_segments {base : Url} {names : List String} (hpath : base.path = .segments names)
    {last : Bool} {s : List Char} {authority : Option Authority} {path : UrlPath}
    (h : follow? base last s = some (authority, path)) : ∃ names, path = .segments names := by
  unfold follow? at h
  match s with
  | [] =>
      cases h
      exact ⟨names, hpath⟩
  | [c] =>
      simp only at h
      split at h <;> exact ⟨_, (congrArg Prod.snd (Option.some.inj h)).symm⟩
  | c :: d :: host =>
      simp only at h
      split at h
      · split at h
        · obtain ⟨⟨a, read⟩, hread, heq⟩ := Option.map_eq_some_iff.1 h
          cases heq
          exact rootless_of_readAuthority? hread
        · exact ⟨_, (congrArg Prod.snd (Option.some.inj h)).symm⟩
      · exact ⟨_, (congrArg Prod.snd (Option.some.inj h)).symm⟩

theorem followed?_segments {base : Url} {names : List String} (hpath : base.path = .segments names)
    {main : List Char} {query fragment : Option (List Char)} {v : Url}
    (h : followed? base main query fragment = some v) : ∃ names, v.path = .segments names := by
  unfold followed? at h
  simp only [hpath] at h
  split at h
  · cases h
  · obtain ⟨⟨authority, path⟩, hfollow, heq⟩ := Option.bind_eq_some_iff.1 h
    cases heq
    exact follow?_segments hpath hfollow

theorem afterOrigin_rootless {u : Url} {path : String} (h : u.path = .rootless path) :
    ∃ marks : List Char, u.afterOrigin.toList = path.toList ++ marks ∧
      ∀ d ∈ marks.head?, d = '#' ∨ d = '?' := by
  refine ⟨(marked "?" u.trimmed.query).toList ++ (marked "#" u.trimmed.fragment).toList, ?_, ?_⟩
  · rw [afterOrigin_eq]
    simp [trimmed, h, UrlPath.text]
  · cases u.trimmed.query with
    | some query => simp [marked]
    | none => cases u.trimmed.fragment <;> simp [marked]

theorem of_resolve? {base v : Url} {reference : String} (h : resolve? base reference = some v) :
    (∃ query fragment, followed? base (mainOf reference.toList) query fragment = some v) ∨
      (∃ body query fragment, (SchemeKind.of base.scheme).isSpecial ∧
        followed? base body query fragment = some v) ∨ parse? reference = some v := by
  unfold resolve? at h
  simp only at h
  split at h
  · exact .inl ⟨_, _, by rw [mainOf_eq rfl rfl]; exact h⟩
  · split at h
    · rename_i hscheme
      exact .inr (.inl ⟨_, _, _, hscheme.1 ▸ hscheme.2, h⟩)
    · exact .inr (.inr h)

/-- A path that is read from a part of another path, behind a scheme, is shorter. -/
theorem length_lt_of_rootless {u v : Url} {url t path inner : String} (hu : parse? url = some u)
    (huOther : SchemeKind.of u.scheme = .other) (hpath : u.path = .rootless path)
    (hv : parse? t = some v) (hvOther : SchemeKind.of v.scheme = .other)
    (hinner : v.path = .rootless inner) (hpart : mainOf t.toList <+: path.toList.dropWhile isOuter) :
    inner.toList.length < path.toList.length := by
  obtain ⟨_, _, -, hwritten⟩ := of_rootless hu huOther hpath
  obtain ⟨name, body, hmain, hbody⟩ := of_rootless hv hvOther hinner
  rw [hmain] at hpart
  have hsub : (path.toList.dropWhile isOuter).Sublist path.toList := List.dropWhile_sublist _
  have hprintable : IsPrintable body := by
    intro d hd
    have hmem : d ∈ path.toList := hsub.subset (hpart.subset (by simp [hd]))
    rw [hwritten] at hmem
    exact isPrintable_escape (fun _ h => h) _ d hmem
  rw [hprintable.solid_eq_self, escape_eq_self hprintable] at hbody
  have hlength := hpart.length_le
  have hle := hsub.length_le
  rw [List.length_append, List.length_cons] at hlength
  rw [hbody]
  omega

/-- What follows the origin of a blob opens with the scheme of a URL inside it. -/
theorem afterOrigin_blob {u : Url} {path : String} {c : Char} {s : List Char}
    (hpath : u.path = .rootless path) (hdrop : path.toList.dropWhile isOuter = c :: s) :
    mainOf u.afterOrigin.toList <+: c :: s ∧
      ∃ rest, u.afterOrigin.toList.dropWhile isOuter = c :: rest := by
  obtain ⟨marks, hmarks, hhead⟩ := afterOrigin_rootless hpath
  have hrest : u.afterOrigin.toList.dropWhile isOuter = (c :: s) ++ marks := by
    rw [hmarks, List.dropWhile_append, hdrop]
    rfl
  refine ⟨prefix_of_head_not_mem (hrest ▸ mainOf_prefix _) fun d hd => ?_, _, hrest⟩
  rcases hhead d hd with rfl | rfl
  · exact (marks_not_mem_mainOf _).1
  · exact (marks_not_mem_mainOf _).2

/-- What opens with a letter cannot be followed from a path without a root. -/
theorem segments_of_followed? {b v : Url} {main : List Char} {query fragment : Option (List Char)}
    {c : Char} {rest : List Char} (hmain : main = c :: rest) (halpha : c.isAlpha)
    (h : followed? b main query fragment = some v) : ∃ names, v.path = .segments names := by
  cases hbase : b.path with
  | segments names => exact followed?_segments hbase h
  | rootless base =>
      have htab : isTabOrBreak c = false := by
        simp [isTabOrBreak, ne_of_isAlpha halpha (d := '\t') rfl,
          ne_of_isAlpha halpha (d := '\n') rfl, ne_of_isAlpha halpha (d := '\r') rfl]
      have hsolid : (solid main).isEmpty = false := by simp [hmain, solid, htab]
      unfold followed? at h
      simp [hbase, hsolid] at h

/-- A special base has segments, and so has all that is followed from it. -/
theorem segments_of_isSpecial {b v : Url} {base : String} (hb : parse? base = some b)
    (hspecial : (SchemeKind.of b.scheme).isSpecial) {main : List Char}
    {query fragment : Option (List Char)} (h : followed? b main query fragment = some v) :
    ∃ names, v.path = .segments names := by
  cases hkind : SchemeKind.of b.scheme with
  | other => simp [hkind, SchemeKind.isSpecial] at hspecial
  | file => simp [followed?, hkind] at h
  | special =>
      obtain ⟨segments, -, -, hbase⟩ := (isTail_of_parse? hb hkind).path
      exact followed?_segments hbase h

/-- What follows the origin of a blob is read with the scheme in it, so that it leads elsewhere. -/
theorem path_ne_of_blob {b u v : Url} {base url : String} (hb : parse? base = some b)
    (hu : parse? url = some u) {o : Origin} (huo : u.origin? = some o) (hblob : u.scheme = "blob")
    (hv : resolve? b u.afterOrigin = some v) (horigin : v.origin? = u.origin?) :
    v.path.text ≠ u.path.text := by
  obtain ⟨path, c, s, hpath, hdrop, halpha⟩ := of_blob hblob huo
  obtain ⟨hshort, rest, hrest⟩ := afterOrigin_blob hpath hdrop
  have htext : u.path.text = path := by
    rw [hpath]
    rfl
  have hsegments : (∃ names, v.path = .segments names) → v.path.text ≠ u.path.text := by
    rintro ⟨names, hnames⟩
    rw [hnames, htext]
    exact text_ne_of_segments hdrop halpha names
  have hother : SchemeKind.of u.scheme = .other := by
    rw [hblob]
    decide
  rcases of_resolve? hv with
    ⟨query, fragment, hfollowed⟩ | ⟨body, query, fragment, hspecial, hfollowed⟩ | hparse
  · obtain ⟨main, hmain⟩ := mainOf_cons hrest (ne_of_isAlpha halpha rfl) (ne_of_isAlpha halpha rfl)
    exact hsegments (segments_of_followed? hmain halpha hfollowed)
  · exact hsegments (segments_of_isSpecial hb hspecial hfollowed)
  · by_cases hvBlob : v.scheme = "blob"
    · -- The path is what follows the scheme, which is shorter.
      obtain ⟨inner, -, -, hinner, -⟩ := of_blob hvBlob (horigin.trans huo)
      have hlt := length_lt_of_rootless hu hother hpath hparse (by rw [hvBlob]; decide) hinner
        (hdrop ▸ hshort)
      intro heq
      rw [hinner, htext] at heq
      obtain rfl : inner = path := heq
      exact lt_irrefl _ hlt
    · have hvSpecial := special_of_origin? hvBlob (horigin.trans huo)
      obtain ⟨segments, -, -, hv⟩ := (isTail_of_parse? hparse hvSpecial).path
      exact hsegments ⟨_, hv⟩

theorem not_leadsTo_of_blob {b u : Url} {base url : String} (hb : parse? base = some b)
    (hu : parse? url = some u) {o : Origin} (hbo : b.origin? = some o) (huo : u.origin? = some o)
    (hblob : b.scheme = "blob" ∨ u.scheme = "blob") : ¬ LeadsTo b u.afterOrigin u := by
  rintro ⟨v, hv, horigin, heq, -⟩
  by_cases huBlob : u.scheme = "blob"
  · exact path_ne_of_blob hb hu huo huBlob hv horigin heq
  · have hbBlob := hblob.resolve_right huBlob
    have htail := (isTail_of_parse? hu (special_of_origin? huBlob huo)).trimmed
    obtain ⟨path, c, s, hpath, -⟩ := of_blob hbBlob hbo
    have hroot : (solid u.trimmed.path.text.toList).isEmpty = false := by
      obtain ⟨segments, hne, -, hroot⟩ := htail.path
      rw [htail.solid_path, hroot, text_ofSegments hne]
      rfl
    rw [afterOrigin_eq, resolve?_eq_followed? htail] at hv
    unfold followed? at hv
    simp [hpath, hroot] at hv

/-! ### Addresses on a base -/

/-- What follows the origin of a URL leads from a base on the same origin to that URL, unless it
opens with two slashes: then it names another host. What follows the origin of a blob is no
path, and from a blob no path leads anywhere. -/
theorem leadsTo_relativeToOrigin {base url path : String}
    (h : relativeToOrigin? base url = some path) :
    ∃ b u, parse? base = some b ∧ parse? url = some u ∧
      (LeadsTo b path u ↔ b.scheme ≠ "blob" ∧ u.scheme ≠ "blob" ∧
        startsWith ['/', '/'] u.path.text.toList = false) := by
  obtain ⟨b, u, o, hb, hu, hbo, huo, rfl⟩ := of_relativeToOrigin? h
  refine ⟨b, u, hb, hu, ?_⟩
  by_cases hblob : b.scheme = "blob" ∨ u.scheme = "blob"
  · have hnot := not_leadsTo_of_blob hb hu hbo huo hblob
    constructor
    · exact fun hleads => absurd hleads hnot
    · rintro ⟨hbBlob, huBlob, -⟩
      exact absurd hblob (not_or.2 ⟨hbBlob, huBlob⟩)
  · obtain ⟨hbBlob, huBlob⟩ := not_or.1 hblob
    rw [leadsTo_afterOrigin hb hu hbo huo hbBlob huBlob]
    exact ⟨fun hslashes => ⟨hbBlob, huBlob, hslashes⟩, fun hparts => hparts.2.2⟩

theorem leadsTo_relativeToOrigin_docs :
    relativeToOrigin? "https://example.com/app" "https://example.com/docs/../a b?x=1#" =
        some "/a%20b?x=1" ∧
      ∃ b u, parse? "https://example.com/app" = some b ∧
        parse? "https://example.com/docs/../a b?x=1#" = some u ∧ LeadsTo b "/a%20b?x=1" u := by
  have hpath : relativeToOrigin? "https://example.com/app"
      "https://example.com/docs/../a b?x=1#" = some "/a%20b?x=1" := by decide +kernel
  have hbase : (parse? "https://example.com/app").map Url.scheme = some "https" := by
    decide +kernel
  have hurl : (parse? "https://example.com/docs/../a b?x=1#").map
      (fun u => (u.scheme, u.path.text)) = some ("https", "/a%20b") := by decide +kernel
  obtain ⟨b, u, hb, hu, hleads⟩ := leadsTo_relativeToOrigin hpath
  rw [hb] at hbase
  rw [hu] at hurl
  obtain ⟨hscheme, hroot⟩ := Prod.mk.inj (Option.some.inj hurl)
  refine ⟨hpath, b, u, hb, hu, hleads.2 ⟨?_, ?_, ?_⟩⟩
  · rw [Option.some.inj hbase]
    decide
  · rw [hscheme]
    decide
  · rw [hroot]
    decide

/-- The path of a page may be read as a host, and leads to it. -/
theorem relativeToOrigin?_slashes :
    relativeToOrigin? "https://example.com" "https://example.com//evil.com/x" =
        some "//evil.com/x" ∧
      resolvedText? "//evil.com/x" "https://example.com" = some "https://evil.com/x" ∧
      ∀ b u, parse? "https://example.com" = some b →
        parse? "https://example.com//evil.com/x" = some u → ¬ LeadsTo b "//evil.com/x" u := by
  refine ⟨by decide +kernel, by decide +kernel, ?_⟩
  rintro b u hb hu ⟨v, hv, -, heq, -⟩
  have hplace : ((parse? "https://example.com").bind
      (resolve? · "//evil.com/x")).map (fun v => v.path.text) = some "/x" := by decide +kernel
  have hpath : (parse? "https://example.com//evil.com/x").map (fun u => u.path.text) =
      some "//evil.com/x" := by decide +kernel
  rw [hb, Option.bind_some, hv] at hplace
  rw [hu] at hpath
  have hsame := (Option.some.inj hplace).symm.trans (heq.trans (Option.some.inj hpath))
  exact absurd hsame (by decide)

end TraceExport.Url
