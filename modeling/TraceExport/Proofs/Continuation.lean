import TraceExport.Proofs.Resolution
import TraceExport.Proofs.Reread

/-!
References that go on where an address ends. A reference is followed from its base, and as a rule
this is not the address with the reference behind it: a path from the root drops the path of the
base, and any other path drops its last segment. Where the base ends just where the reference
begins (`Continues`), both are one URL (`resolvedText?_of_continues`).
-/

namespace TraceExport.Url

open Text

/-! ### Segments of two texts -/

namespace Walk

/-- Reads a segment that is not the last one. -/
def pass (w : Walk) (segment : List Char) : Walk :=
  if isDoubleDot (solid segment) then w.up
  else if isSingleDot (solid segment) then w
  else w.add .special segment

theorem read_append (w : Walk) (front : List (List Char)) {back : List (List Char)}
    (hback : back ≠ []) :
    w.read .special (front ++ back) = (front.foldl pass w).read .special back := by
  induction front generalizing w with
  | nil => rfl
  | cons segment front ih =>
      have hmore : (front ++ back).isEmpty = false := by simp [hback]
      rw [List.cons_append, read, List.foldl_cons, pass, hmore]
      simp only [Bool.false_eq_true, if_false]
      split
      · exact ih _
      split
      · exact ih _
      · exact ih _

theorem onDrive_pass (w : Walk) (segment : List Char) : (w.pass segment).onDrive = w.onDrive := by
  unfold pass
  split
  · rfl
  split
  · rfl
  · rw [add_eq_push (by decide)]
    rfl

theorem onDrive_foldl_pass (w : Walk) (segments : List (List Char)) :
    (segments.foldl pass w).onDrive = w.onDrive := by
  induction segments generalizing w with
  | nil => rfl
  | cons segment segments ih => rw [List.foldl_cons, ih, onDrive_pass]

end Walk

theorem folder_ofSegments (segments : List (List Char)) :
    (ofSegments segments).folder = segments.reverse.tail := by
  simp [ofSegments, UrlPath.folder, Function.comp_def]

/-- A path in a folder is read on from where the reader was behind its slash. -/
theorem pathSegments_append (s : List Char) {c : Char} (hc : SchemeKind.special.isSlash c)
    (t : List Char) : pathSegments .special (s ++ c :: t) =
      ((Walk.mk (ofSegments (pathSegments .special (s ++ [c]))).folder false).read .special
        (splitOn SchemeKind.special.isSlash t)).segments.reverse := by
  have hread : ∀ t, readPath .special (s ++ c :: t) =
      ((splitOn SchemeKind.special.isSlash s).foldl Walk.pass Walk.start).read .special
        (splitOn SchemeKind.special.isSlash t) := fun t => by
    rw [readPath, splitOn_append hc, Walk.read_append _ _ (splitOn_ne_nil _ t)]
  have hdrive := Walk.onDrive_foldl_pass Walk.start (splitOn SchemeKind.special.isSlash s)
  have hfolder : (ofSegments (pathSegments .special (s ++ [c]))).folder =
      ((splitOn SchemeKind.special.isSlash s).foldl Walk.pass Walk.start).segments := by
    rw [folder_ofSegments, pathSegments, List.reverse_reverse, hread]
    rfl
  rw [pathSegments, hread, hfolder]
  congr 3
  exact congrArg (Walk.mk _) hdrive

/-- A path in the folder that an address ends with. -/
theorem pathAfterAuthority_append {s : List Char}
    (hfirst : ∃ c ∈ s.head?, SchemeKind.special.isSlash c)
    (hlast : ∃ c ∈ s.getLast?, SchemeKind.special.isSlash c) (t : List Char) :
    pathAfterAuthority .special (s ++ t) =
      ofSegments ((Walk.mk (pathAfterAuthority .special s).folder false).read .special
        (splitOn SchemeKind.special.isSlash t)).segments.reverse := by
  obtain ⟨c, hc, hslash⟩ := hfirst
  obtain ⟨s, rfl⟩ := List.head?_eq_some_iff.1 hc
  rw [List.cons_append, pathAfterAuthority, pathAfterAuthority, if_pos hslash, if_pos hslash]
  rcases List.eq_nil_or_concat s with rfl | ⟨front, d, rfl⟩
  · rfl
  · obtain ⟨e, he, hend⟩ := hlast
    obtain rfl : d = e := by
      rw [List.concat_eq_append, ← List.cons_append,
        List.getLast?_append_of_ne_nil _ (by simp)] at he
      simpa using he
    rw [List.concat_eq_append, List.append_assoc, List.singleton_append,
      pathSegments_append front hend]

/-! ### Authorities -/

theorem readHostPort?_nil (scheme : String) : readHostPort? .special scheme [] = none := rfl

/-- What stands behind an authority does not change how it is read. -/
theorem readAuthority?_behind {scheme : String} {last : Bool} {s : List Char} {a : Authority}
    {path : UrlPath} (h : readAuthority? .special scheme last s = some (a, path)) (last' : Bool)
    {t : List Char} (ht : s.dropWhile (!SchemeKind.special.isSlash ·) = [] →
      ∀ c ∈ t.head?, SchemeKind.special.isSlash c) :
    readAuthority? .special scheme last' (s ++ t) = some (a,
      pathAfterAuthority .special (s.dropWhile (!SchemeKind.special.isSlash ·) ++ t)) := by
  obtain ⟨authority, rest, userinfo, hostPort, hsplit, huser, hname, hhost, -⟩ :=
    of_readAuthority? h
  have hcut : splitAuthority .special (s ++ t) =
      (authority, s.dropWhile (!SchemeKind.special.isSlash ·) ++ t) := by
    rw [splitAuthority_special] at hsplit ⊢
    obtain ⟨rfl, -⟩ := Prod.mk.inj hsplit
    obtain ⟨hfront, hback⟩ := span_append (p := (!SchemeKind.special.isSlash ·))
      fun hnone c hc => by rw [ht hnone c hc, Bool.not_true]
    rw [hfront, hback]
  have hempty : hostPort.isEmpty = false := by
    cases hostPort with
    | nil => simp [readHostPort?_nil] at hhost
    | cons c s => rfl
  have hsome : a.host ≠ none := by
    obtain ⟨host, hhost, -⟩ := (isSpecial_of_readAuthority? h).host
    simp [hhost]
  rw [readAuthority?, hcut]
  simp [huser, hempty, hname, hhost, hsome]

/-- What follows the authority of a special URL, from the first slash on. -/
def behindAuthority (s : List Char) : List Char :=
  match readScheme? (mainOf s) with
  | some (_, body) =>
    ((solid body).dropWhile SchemeKind.special.isSlash).dropWhile (!SchemeKind.special.isSlash ·)
  | none => []

theorem isSlash_behindAuthority (s : List Char) :
    ∀ c ∈ (behindAuthority s).head?, SchemeKind.special.isSlash c := by
  unfold behindAuthority
  split
  · rename_i scheme body _
    intro c hc
    have hnot := List.head?_dropWhile_not (!SchemeKind.special.isSlash ·)
      ((solid body).dropWhile SchemeKind.special.isSlash)
    rw [Option.mem_def.1 hc] at hnot
    simpa using hnot
  · simp

/-- A special URL that something follows, before its query. -/
theorem readBody?_behind {base : String} {b : Url} (hb : parse? base = some b)
    (hspecial : SchemeKind.of b.scheme = .special) : ∃ body,
      readScheme? (mainOf base.toList) = some (b.scheme, body) ∧
      b.path = pathAfterAuthority .special (behindAuthority base.toList) ∧
      ∀ last t, (behindAuthority base.toList = [] →
          ∀ c ∈ (solid t).head?, SchemeKind.special.isSlash c) →
        readBody? b.scheme last (body ++ t) = some (b.authority,
          pathAfterAuthority .special (behindAuthority base.toList ++ solid t)) := by
  obtain ⟨front, fragment, main, query, body, hfront, hmain, hscheme, hbody, -⟩ := of_parse? hb
  obtain ⟨a, hauthority, hread⟩ := of_readBody? hspecial hbody
  have hbehind : behindAuthority base.toList =
      ((solid body).dropWhile SchemeKind.special.isSlash).dropWhile
        (!SchemeKind.special.isSlash ·) := by
    rw [behindAuthority, mainOf_eq hfront hmain, hscheme]
  have hagain := readAuthority?_behind hread (query.isNone && fragment.isNone) (t := []) (by simp)
  rw [List.append_nil, List.append_nil, hread, ← hbehind] at hagain
  obtain ⟨-, hpath⟩ := Prod.mk.inj (Option.some.inj hagain)
  refine ⟨body, by rw [mainOf_eq hfront hmain, hscheme], hpath, fun last t ht => ?_⟩
  have hslashes : (solid (body ++ t)).dropWhile SchemeKind.special.isSlash =
      (solid body).dropWhile SchemeKind.special.isSlash ++ solid t := by
    have hsome : (solid body).dropWhile SchemeKind.special.isSlash ≠ [] := by
      intro hnil
      rw [hnil] at hread
      cases hread
    rw [solid, List.filter_append, List.dropWhile_append, if_neg (by simpa [solid] using hsome)]
    rfl
  rw [readBody?, hspecial]
  simp only [hslashes, readAuthority?_behind hread last (hbehind ▸ ht), hauthority,
    Option.map_some, hbehind]

/-! ### References -/

/-- How a path meets the base that it is written behind. -/
inductive Meets (base : List Char) : List Char → Prop
  /-- A query on a base that has none. -/
  | query {s : List Char} (hmark : '?' ∉ base) (hhash : '#' ∉ base) : Meets base ('?' :: s)
  /-- A fragment on a base that has none. -/
  | fragment {s : List Char} (hhash : '#' ∉ base) : Meets base ('#' :: s)
  /-- A path from the root on a base that ends with its authority. -/
  | root {c : Char} {s : List Char} (hmark : '?' ∉ base) (hhash : '#' ∉ base)
      (hend : behindAuthority base = []) (hc : SchemeKind.special.isSlash c)
      (hs : ∀ d ∈ s.head?, SchemeKind.special.isSlash d = false) : Meets base (c :: s)
  /-- A path that opens with no slash and no scheme, on a base that ends with a slash. -/
  | folder {c : Char} {s : List Char} (hmark : '?' ∉ base) (hhash : '#' ∉ base)
      (hend : ∃ d ∈ base.getLast?, SchemeKind.special.isSlash d)
      (hc : SchemeKind.special.isSlash c = false) (houter : isOuter c = false)
      (hmarks : c ≠ '?' ∧ c ≠ '#') (hscheme : readScheme? (c :: s) = none) : Meets base (c :: s)

/-- A base is a special URL that ends where a path begins. -/
structure Continues (base path : String) : Prop where
  special : ∃ b, parse? base = some b ∧ SchemeKind.of b.scheme = .special
  last : ∃ c ∈ base.toList.getLast?, isOuter c = false
  meets : Meets base.toList path.toList

theorem readScheme?_prefix {s t : List Char} (h : readScheme? t = none) (hs : s <+: t) :
    readScheme? s = none := by
  obtain ⟨rest, rfl⟩ := hs
  cases hread : readScheme? s with
  | none => rfl
  | some r =>
      obtain ⟨scheme, body⟩ := r
      rw [readScheme?_append hread] at h
      cases h

variable {base path : String} {b : Url}

theorem mainOf_of_head {c : Char} {s t : List Char} (hs : s = c :: t) (houter : isOuter c = false)
    (hmarks : c ≠ '?' ∧ c ≠ '#') : ∃ rest, mainOf s = c :: rest ∧ rest <+: t := by
  have hdrop : s.dropWhile isOuter = c :: t := by simp [hs, houter]
  obtain ⟨rest, hrest⟩ := mainOf_cons hdrop hmarks.2 hmarks.1
  have hprefix := mainOf_prefix s
  rw [hrest, hdrop] at hprefix
  exact ⟨rest, hrest, (List.cons_prefix_cons.1 hprefix).2⟩

theorem mem_of_mem_withoutOuter {s : List Char} {c : Char} (h : c ∈ withoutOuter s) : c ∈ s :=
  (List.dropWhile_sublist _).subset ((trimEndOf_isPrefix _ _).subset h)

/-- A reference that opens with a question mark has a query. -/
theorem query_of_question {s rest front main : List Char} {fragment query : Option (List Char)}
    (hs : withoutOuter s = '?' :: rest) (hfront : cutAt '#' (withoutOuter s) = (front, fragment))
    (hmain : cutAt '?' front = (main, query)) : query.isNone = false := by
  have hcut := cutAt_append (by decide : '#' ∉ ['?']) rest
  rw [List.singleton_append, ← hs, hfront] at hcut
  obtain ⟨rfl, -⟩ := Prod.mk.inj hcut
  have hmarked := cutAt_mark (List.not_mem_nil : '?' ∉ []) (cutAt '#' rest).1
  rw [List.nil_append] at hmarked
  rw [List.singleton_append, hmarked] at hmain
  obtain ⟨-, rfl⟩ := Prod.mk.inj hmain
  rfl

/-- A reference leads to the URL that is read if it is written behind its base. -/
def LeadsOn (base : String) (b : Url) (path : String) : Prop :=
  ∃ u, resolve? b path = some u ∧ parse? (base ++ path) = some u ∧ u.scheme = b.scheme

theorem getLast?_of_suffix {s t : List Char} (ht : t <:+ s) (hne : t ≠ []) :
    t.getLast? = s.getLast? := by
  obtain ⟨front, rfl⟩ := ht
  rw [List.getLast?_append_of_ne_nil _ hne]

/-- A base that ends with a slash has this slash behind its authority. -/
theorem slash_behindAuthority (hb : parse? base = some b)
    (hspecial : SchemeKind.of b.scheme = .special) (hhash : '#' ∉ base.toList)
    (hmark : '?' ∉ base.toList) {d : Char} (hd : base.toList.getLast? = some d)
    (hslash : SchemeKind.special.isSlash d) : (behindAuthority base.toList).getLast? = some d := by
  obtain ⟨body, hread, -, hbody⟩ := readBody?_behind hb hspecial
  have hmark' : '?' ∉ withoutOuter base.toList := mt mem_of_mem_withoutOuter hmark
  have hhash' : '#' ∉ withoutOuter base.toList := mt mem_of_mem_withoutOuter hhash
  have hmain := mainOf_eq (cutAt_of_not_mem hhash') (cutAt_of_not_mem hmark')
  have hd' : d = '/' ∨ d = '\\' := by simpa [SchemeKind.isSlash, SchemeKind.isSpecial] using hslash
  obtain ⟨front, hfront⟩ := List.getLast?_eq_some_iff.1 hd
  obtain ⟨name, hname, -⟩ := of_readScheme? hread
  have houter : isOuter d = false := by rcases hd' with rfl | rfl <;> rfl
  have hcolon : d ≠ ':' := by rcases hd' with rfl | rfl <;> decide
  have htab : isTabOrBreak d = false := by rcases hd' with rfl | rfl <;> rfl
  have hlastBody : body.getLast? = some d := by
    have hlast : (withoutOuter base.toList).getLast? = some d := by
      rw [hfront, withoutOuter_of_last houter,
        getLast?_of_suffix (List.dropWhile_suffix _) (by simp [houter])]
      simp
    rw [← hmain, hname] at hlast
    cases body with
    | nil => exact absurd (by simpa using hlast.symm) hcolon
    | cons c body =>
        rwa [List.getLast?_append_of_ne_nil _ (by simp), List.getLast?_cons_cons] at hlast
  obtain ⟨back, hback⟩ := List.getLast?_eq_some_iff.1 hlastBody
  have hsolid : (solid body).getLast? = some d := by simp [hback, solid, htab]
  have hopened : (solid body).dropWhile SchemeKind.special.isSlash ≠ [] := by
    intro hnil
    obtain ⟨a, -, hread⟩ := of_readBody? hspecial (hbody false [] (by simp [solid]))
    rw [List.append_nil, hnil] at hread
    cases hread
  have hlast := getLast?_of_suffix (List.dropWhile_suffix _) hopened
  rw [hsolid] at hlast
  have hmem := List.mem_of_getLast? hlast
  rw [behindAuthority, hread]
  simp only
  rw [getLast?_of_suffix (List.dropWhile_suffix _), hlast]
  intro hnil
  simpa [hslash] using List.dropWhile_eq_nil_iff.1 hnil d hmem

theorem solid_of_prefix {s t : List Char} (h : solid s = s) (ht : t <+: s) : solid t = t :=
  List.filter_eq_self.2 fun c hc => List.filter_eq_self.1 h c (ht.subset hc)

section

variable (hb : parse? base = some b) (hspecial : SchemeKind.of b.scheme = .special)
  (hhash : '#' ∉ base.toList) (hlast : ∃ c ∈ base.toList.getLast?, isOuter c = false)

include hb hspecial hhash hlast

/-- A fragment leaves its base as it is. -/
theorem leadsOn_of_fragment {s : List Char} (hpath : path.toList = '#' :: s) :
    LeadsOn base b path := by
  obtain ⟨body, hread, hroot, hbody⟩ := readBody?_behind hb hspecial
  obtain ⟨segments, -, -, hsegments⟩ := (isTail_of_parse? hb hspecial).path
  obtain ⟨front, fragment, main, query, _, hfront, hmain, -, -, hquery, -⟩ := of_parse? hb
  obtain ⟨rest, hrest⟩ := withoutOuter_cons (s := path.toList) (c := '#') (by rw [hpath]; rfl)
  have hhash' : '#' ∉ withoutOuter base.toList := mt mem_of_mem_withoutOuter hhash
  have hwhole : withoutOuter (base ++ path).toList = withoutOuter base.toList ++ '#' :: rest := by
    rw [String.toList_append, withoutOuter_append hlast ⟨'#', by rw [hpath]; rfl, rfl⟩, hrest]
  have hcut : cutAt '#' ('#' :: rest) = ([], some rest) := cutAt_mark (s := []) (by simp) rest
  have hagain := hbody false [] (by simp [solid])
  rw [List.append_nil, show solid [] = [] from rfl, List.append_nil, ← hroot] at hagain
  rw [mainOf_eq hfront hmain] at hread
  rw [cutAt_of_not_mem hhash'] at hfront
  obtain ⟨rfl, rfl⟩ := Prod.mk.inj hfront
  have hreference : resolve? b path = followed? b [] none (some rest) := by
    rw [resolve?, hrest, hcut]
    rfl
  have hfollow : follow? b false [] = some (b.authority, ofSegments segments) := by
    rw [follow?, hsegments]
  refine ⟨{ b with
    fragment := some (String.ofList (escape isEscapedInFragment (solid rest))) }, ?_, ?_, rfl⟩
  · rw [hreference, followed?]
    simp only [hspecial, hsegments, ofSegments] at hfollow ⊢
    simp [hfollow, solid]
  · rw [parse?, hwhole, cutAt_mark hhash']
    simp [hmain, hread, hagain, hquery]

variable (hmark : '?' ∉ base.toList)

include hmark

/-- A reference with a path or a query, as it is followed and as it is read behind its base. -/
theorem leadsOn_of_path (hfirst : ∃ c ∈ path.toList.head?, isOuter c = false)
    (hscheme : readScheme? (mainOf path.toList) = none)
    (hquery : solid (mainOf path.toList) = [] → ∃ s, withoutOuter path.toList = '?' :: s)
    (hslash : behindAuthority base.toList = [] →
      ∀ c ∈ (solid (mainOf path.toList)).head?, SchemeKind.special.isSlash c)
    (hfollow : ∀ last, follow? b last (solid (mainOf path.toList)) = some (b.authority,
      pathAfterAuthority .special
        (behindAuthority base.toList ++ solid (mainOf path.toList)))) :
    LeadsOn base b path := by
  obtain ⟨body, hread, -, hbody⟩ := readBody?_behind hb hspecial
  obtain ⟨segments, -, -, hpath⟩ := (isTail_of_parse? hb hspecial).path
  obtain ⟨front, fragment, hfront⟩ : ∃ front fragment,
      cutAt '#' (withoutOuter path.toList) = (front, fragment) := ⟨_, _, rfl⟩
  obtain ⟨main, query, hmain⟩ : ∃ main query, cutAt '?' front = (main, query) := ⟨_, _, rfl⟩
  rw [mainOf_eq hfront hmain] at hscheme hquery hslash hfollow
  have hmark' : '?' ∉ withoutOuter base.toList := mt mem_of_mem_withoutOuter hmark
  have hhash' : '#' ∉ withoutOuter base.toList := mt mem_of_mem_withoutOuter hhash
  rw [mainOf_eq (cutAt_of_not_mem hhash') (cutAt_of_not_mem hmark')] at hread
  have hsome : ((solid main).isEmpty && query.isNone) = false := by
    rw [Bool.and_eq_false_iff, List.isEmpty_eq_false_iff]
    by_cases hempty : solid main = []
    · obtain ⟨s, hs⟩ := hquery hempty
      exact .inr (query_of_question hs hfront hmain)
    · exact .inl hempty
  have hwhole : withoutOuter (base ++ path).toList =
      withoutOuter base.toList ++ withoutOuter path.toList := by
    rw [String.toList_append, withoutOuter_append hlast hfirst]
  have hreference : resolve? b path = followed? b main query fragment := by
    rw [resolve?, hfront]
    simp only [hmain, hscheme]
  refine ⟨{ b with
    path := pathAfterAuthority .special (behindAuthority base.toList ++ solid main)
    query := query.map fun s => String.ofList (escape isEscapedInSpecialQuery (solid s))
    fragment := fragment.map fun s => String.ofList (escape isEscapedInFragment (solid s)) },
    ?_, ?_, rfl⟩
  · rw [hreference, followed?]
    simp only [hspecial, hpath, ofSegments, hfollow, hsome, SchemeKind.isSpecial,
      Bool.false_eq_true, reduceCtorEq, if_false, if_true, Option.bind_eq_bind, Option.bind_some]
    rfl
  · rw [parse?, hwhole, cutAt_append hhash', hfront]
    simp only [cutAt_append hmark', hmain, readScheme?_append hread, hbody _ main hslash, hspecial,
      SchemeKind.isSpecial, if_true, Option.bind_eq_bind, Option.bind_some]
    rfl

/-- A reference that opens with a character of its path. -/
theorem leadsOn_of_head (hsolid : solid path.toList = path.toList) {c : Char} {s : List Char}
    (hs : path.toList = c :: s) (houter : isOuter c = false) (hmarks : c ≠ '?' ∧ c ≠ '#')
    (hscheme : readScheme? (c :: s) = none)
    (hslash : behindAuthority base.toList = [] → SchemeKind.special.isSlash c)
    (hfollow : ∀ rest, rest <+: s → ∀ last, follow? b last (c :: rest) = some (b.authority,
      pathAfterAuthority .special (behindAuthority base.toList ++ c :: rest))) :
    LeadsOn base b path := by
  obtain ⟨rest, hmain, hrest⟩ := mainOf_of_head hs houter hmarks
  have hprefix : c :: rest <+: c :: s := List.cons_prefix_cons.2 ⟨rfl, hrest⟩
  have hkept : solid (mainOf path.toList) = c :: rest := by
    rw [hmain]
    exact solid_of_prefix (hs ▸ hsolid) hprefix
  refine leadsOn_of_path hb hspecial hhash hlast hmark ⟨c, by rw [hs]; rfl, houter⟩
    (hmain ▸ readScheme?_prefix hscheme hprefix) ?_ ?_ ?_
  all_goals rw [hkept]
  · simp
  · simpa using hslash
  · exact hfollow rest hrest

/-- A query is that of the base, which has none. -/
theorem leadsOn_of_query {s : List Char} (hs : path.toList = '?' :: s) : LeadsOn base b path := by
  obtain ⟨rest, hrest⟩ := withoutOuter_cons (s := path.toList) (c := '?') (by rw [hs]; rfl)
  have hmain : mainOf path.toList = [] := by simp [mainOf, hrest]
  have hnil : solid (mainOf path.toList) = [] := by rw [hmain]; rfl
  refine leadsOn_of_path hb hspecial hhash hlast hmark ⟨'?', by rw [hs]; rfl, rfl⟩
    (by rw [hmain]; rfl) (fun _ => ⟨rest, hrest⟩) (by simp [hnil]) fun last => ?_
  obtain ⟨-, -, hroot, -⟩ := readBody?_behind hb hspecial
  rw [hnil, List.append_nil, ← hroot]
  rfl

/-- One slash is the root, on the base as behind its authority. -/
theorem leadsOn_of_root (hsolid : solid path.toList = path.toList)
    (hend : behindAuthority base.toList = []) {c : Char} {s : List Char}
    (hs : path.toList = c :: s) (hc : SchemeKind.special.isSlash c)
    (hfirst : ∀ d ∈ s.head?, SchemeKind.special.isSlash d = false) : LeadsOn base b path := by
  have hslash : c = '/' ∨ c = '\\' := by
    simpa [SchemeKind.isSlash, SchemeKind.isSpecial] using hc
  have houter : isOuter c = false := by rcases hslash with rfl | rfl <;> rfl
  have hmarks : c ≠ '?' ∧ c ≠ '#' := by rcases hslash with rfl | rfl <;> decide
  have hscheme : readScheme? (c :: s) = none := by
    rcases hslash with rfl | rfl <;> exact readScheme?_eq_none rfl rfl s
  refine leadsOn_of_head hb hspecial hhash hlast hmark hsolid hs houter hmarks hscheme
    (fun _ => hc) fun rest hrest last => ?_
  have hread : pathAfterAuthority .special (c :: rest) =
      ofSegments (pathSegments .special rest) := if_pos hc
  rw [hend, List.nil_append, hread]
  unfold follow?
  cases rest with
  | nil => simp only [hspecial, hc, if_true]
  | cons d rest =>
      have hd : SchemeKind.special.isSlash d = false := by
        obtain ⟨back, rfl⟩ := hrest
        exact hfirst d rfl
      simp only [hspecial, hc, hd, Bool.false_eq_true, if_true, if_false]

/-- What opens with no slash stays in the folder that the base ends with. -/
theorem leadsOn_of_folder (hsolid : solid path.toList = path.toList)
    (hend : ∃ d ∈ base.toList.getLast?, SchemeKind.special.isSlash d) {c : Char} {s : List Char}
    (hs : path.toList = c :: s) (hc : SchemeKind.special.isSlash c = false)
    (houter : isOuter c = false) (hmarks : c ≠ '?' ∧ c ≠ '#')
    (hscheme : readScheme? (c :: s) = none) : LeadsOn base b path := by
  obtain ⟨d, hd, hslash⟩ := hend
  have hbehind := slash_behindAuthority hb hspecial hhash hmark hd hslash
  have hfirst : ∃ e ∈ (behindAuthority base.toList).head?, SchemeKind.special.isSlash e := by
    cases hwhole : behindAuthority base.toList with
    | nil => simp [hwhole] at hbehind
    | cons e back => exact ⟨e, rfl, isSlash_behindAuthority _ e (by rw [hwhole]; rfl)⟩
  refine leadsOn_of_head hb hspecial hhash hlast hmark hsolid hs houter hmarks hscheme
    (fun hnil => by simp [hnil] at hbehind) fun rest _ last => ?_
  obtain ⟨-, -, hroot, -⟩ := readBody?_behind hb hspecial
  rw [pathAfterAuthority_append hfirst ⟨d, hbehind, hslash⟩, ← hroot]
  unfold follow?
  simp only [hspecial, hc, Bool.false_eq_true, if_false]

end

/-- Where a path meets its base, it leads to the URL of the base with the path behind it. -/
theorem leadsOn_of_meets (hb : parse? base = some b)
    (hspecial : SchemeKind.of b.scheme = .special)
    (hlast : ∃ c ∈ base.toList.getLast?, isOuter c = false)
    (hsolid : solid path.toList = path.toList)
    (h : Meets base.toList path.toList) : LeadsOn base b path := by
  generalize hs : path.toList = s at h
  cases h with
  | query hmark hhash => exact leadsOn_of_query hb hspecial hhash hlast hmark hs
  | fragment hhash => exact leadsOn_of_fragment hb hspecial hhash hlast hs
  | root hmark hhash hend hc hfirst =>
      exact leadsOn_of_root hb hspecial hhash hlast hmark hsolid hend hs hc hfirst
  | folder hmark hhash hend hc houter hmarks hscheme =>
      exact leadsOn_of_folder hb hspecial hhash hlast hmark hsolid hend hs hc houter hmarks hscheme

/-- A path that goes on where its base ends may as well be written behind the base. -/
theorem resolvedText?_of_continues (h : Continues base path)
    (hsolid : solid path.toList = path.toList) : ∃ u address, parse? (base ++ path) = some u ∧
      resolvedText? path base = some address ∧ parse? address = some u := by
  obtain ⟨b, hb, hspecial⟩ := h.special
  obtain ⟨u, hu, hwhole, hscheme⟩ := leadsOn_of_meets hb hspecial h.last hsolid h.meets
  have hu' := isSpecial_of_parse? hwhole (hscheme ▸ hspecial)
  refine ⟨u, u.text, hwhole, ?_, hu'.parse?_text⟩
  rw [resolvedText?, hb]
  simp [hu]

end TraceExport.Url
