import TraceExport.Proofs.Reread

/-!
URLs that are not special, as they are written. Their hosts are kept as any text without marks and
their paths may be without a root, but what stands behind their scheme is read as it was written
all the same (`IsPlainBody.readBody?`).
-/

namespace TraceExport.Url

open Text

/-! ### Hosts -/

/-- A host of a URL that is not special, as it is kept. -/
inductive Host.IsPlain : Host → Prop
  | domain {name : List Char} (hsome : name ≠ []) (hprintable : IsPrintable name)
      (hallowed : ∀ c ∈ name, isForbiddenInHost c = false) :
      IsPlain (.domain (String.ofList name))
  | ipv6 {groups : List Nat} (h : AreGroups groups) : IsPlain (.ipv6 groups)

theorem isPlain_of_plainHost? {s : List Char} (hne : s ≠ []) {host : Host}
    (h : plainHost? s = some host) : host.IsPlain := by
  unfold plainHost? at h
  split at h
  · obtain ⟨inside, -, h⟩ := Option.bind_eq_some_iff.1 h
    obtain ⟨groups, rfl, hgroups⟩ := of_ipv6? h
    exact .ipv6 hgroups
  · split at h
    · cases h
    · rename_i hallowed
      rw [Bool.not_eq_true, List.any_eq_false] at hallowed
      cases h
      refine .domain (escape_ne_nil hne) (isPrintable_escape (fun _ hc => hc) s) ?_
      exact forall_mem_escape ⟨rfl, by decide⟩ fun c hc _ => by simpa using hallowed c hc

namespace Host.IsPlain

variable {host : Host}

/-- A host is read as it was written. -/
theorem read (h : host.IsPlain) : plainHost? host.text.toList = some host := by
  cases h with
  | @domain name hsome hprintable hallowed =>
      have hopen : '[' ∉ name := fun hmem => absurd (hallowed '[' hmem) (by decide)
      have hfree : name.any isForbiddenInHost = false :=
        List.any_eq_false.2 fun c hc => by simp [hallowed c hc]
      simp [plainHost?, Host.text, bracketed_eq_none hopen, hfree, escape_eq_self hprintable]
  | @ipv6 groups h =>
      have hclosed : dropSuffix? [']'] (ipv6Text groups ++ [']']) = some (ipv6Text groups) :=
        dropSuffix?_eq_some.2 rfl
      simp [plainHost?, Host.text, bracketed, hclosed, ipv6?_text h]

theorem text_ne_nil (h : host.IsPlain) : host.text.toList ≠ [] := by
  cases h with
  | domain hsome => simpa [Host.text] using hsome
  | ipv6 h => exact (Host.IsSpecial.ipv6 h).text_ne_nil

theorem isOutsideHost (h : host.IsPlain) : ∀ c ∈ host.text.toList, isOutsideHost c = false := by
  cases h with
  | @domain name hsome hprintable hallowed =>
      intro c hc
      rw [Host.text, String.toList_ofList] at hc
      have hforbidden := hallowed c hc
      rw [Url.isOutsideHost, hprintable c hc]
      simp [isForbiddenInHost] at hforbidden
      simp [hforbidden]
  | ipv6 h => exact (Host.IsSpecial.ipv6 h).isOutsideHost

/-- A host is cut off at the colon behind it. -/
theorem splitHost_append (h : host.IsPlain) (t : List Char) :
    splitHost false (host.text.toList ++ t) =
      (host.text.toList ++ (splitHost false t).1, (splitHost false t).2) := by
  cases h with
  | @domain name hsome hprintable hallowed =>
      rw [Host.text, String.toList_ofList]
      refine Url.splitHost_append (fun c hc => ?_) t
      have hforbidden := hallowed c hc
      refine ⟨?_, ?_, ?_⟩
      all_goals
        rintro rfl
        cases hforbidden
  | ipv6 h => exact (Host.IsSpecial.ipv6 h).splitHost_append t

end Host.IsPlain

/-! ### Paths -/

/-- A path with a root in a URL that is not special, as it is written. -/
def IsPlainPath (path : UrlPath) : Prop :=
  ∃ segments, (∀ s ∈ segments, IsSettled s ∧ ∀ c ∈ s, SchemeKind.other.isSlash c = false) ∧
    path = ofSegments segments

theorem isPlainPath_pathAfterAuthority (s : List Char) :
    IsPlainPath (pathAfterAuthority .other s) := by
  unfold pathAfterAuthority
  split
  · exact ⟨[], by simp, rfl⟩
  · split
    · exact ⟨_, isSettled_pathSegments (by decide) _, rfl⟩
    · exact ⟨_, isSettled_pathSegments (by decide) _, rfl⟩

theorem IsPlainPath.written {path : UrlPath} (h : IsPlainPath path) :
    ∀ c ∈ path.text.toList, isEscapedInPath c = false := by
  obtain ⟨segments, hsegments, rfl⟩ := h
  exact forall_mem_ofSegments (by decide) fun segment hsegment =>
    (hsegments segment hsegment).1.written

theorem pathSegments_other {segments : List (List Char)} (hne : segments ≠ [])
    (h : ∀ s ∈ segments, IsSettled s ∧ ∀ c ∈ s, SchemeKind.other.isSlash c = false) :
    pathSegments .other (join ['/'] segments) = segments :=
  pathSegments_join_of_ne_file (by decide) hne (fun s hs => (h s hs).1) fun s hs => (h s hs).2

/-- A dot in front of a path is passed over. -/
theorem pathSegments_dot {segments : List (List Char)} (hne : segments ≠ [])
    (h : ∀ s ∈ segments, IsSettled s ∧ ∀ c ∈ s, SchemeKind.other.isSlash c = false) :
    pathSegments .other ('.' :: '/' :: join ['/'] segments) = segments := by
  have hother : SchemeKind.other ≠ .file := by decide
  have hread := congrArg List.reverse
    (Walk.segments_read hother (fun s hs => (h s hs).1) Walk.start)
  have hsplit : splitOn SchemeKind.other.isSlash ('.' :: '/' :: join ['/'] segments) =
      ['.'] :: segments := by
    have hpieces := splitOn_append (p := SchemeKind.other.isSlash) (c := '/') rfl ['.']
      (join ['/'] segments)
    rwa [splitOn_join rfl hne fun s hs => (h s hs).2] at hpieces
  have hdouble : isDoubleDot (solid ['.']) = false := by decide
  have hsingle : isSingleDot (solid ['.']) = true := by decide
  have hrest : segments.isEmpty = false := by simpa using hne
  rw [pathSegments, readPath, hsplit, Walk.read]
  simpa [hdouble, hsingle, hrest, Walk.start] using hread

theorem IsPlainPath.pathAfterAuthority {path : UrlPath} (h : IsPlainPath path) :
    pathAfterAuthority .other path.text.toList = path := by
  obtain ⟨segments, hsegments, rfl⟩ := h
  by_cases hne : segments = []
  · subst hne
    rfl
  · rw [text_ofSegments hne, Url.pathAfterAuthority, if_pos (by decide),
      pathSegments_other hne hsegments]

/-! ### Authorities -/

/-- An authority of a URL that is not special and names no user, as it is kept. -/
structure Authority.IsPlain (scheme : String) (a : Authority) : Prop where
  username : a.username = ""
  password : a.password = none
  host : ∀ host ∈ a.host, host.IsPlain
  port : ∀ port ∈ a.port, a.host.isSome ∧ port < 65536 ∧ usualPort? scheme ≠ some port

/-- What is left of an authority without its user. -/
def Authority.withoutUser (a : Authority) : Authority := { a with username := "", password := none }

theorem isPlain_of_readAuthority? {scheme : String} {last : Bool} {s : List Char} {a : Authority}
    {path : UrlPath} (h : readAuthority? .other scheme last s = some (a, path)) :
    a.withoutUser.IsPlain scheme ∧ IsPlainPath path := by
  obtain ⟨username, password, host, port⟩ := a
  obtain ⟨_, rest, _, hostPort, -, -, -, hread, rfl⟩ := of_readAuthority? h
  suffices hplain : (∀ h ∈ host, h.IsPlain) ∧
      ∀ n ∈ port, host.isSome ∧ n < 65536 ∧ usualPort? scheme ≠ some n from
    ⟨⟨rfl, rfl, hplain.1, hplain.2⟩, isPlainPath_pathAfterAuthority rest⟩
  unfold readHostPort? at hread
  simp only [SchemeKind.isSpecial, Bool.false_or, Bool.false_eq_true, if_false,
    Option.bind_eq_bind] at hread
  split at hread
  · split at hread
    · cases hread
    · cases hread
      simp
  · rename_i hname
    obtain ⟨host, hhost, hread⟩ := Option.bind_eq_some_iff.1 hread
    obtain ⟨port, hport, hread⟩ := Option.bind_eq_some_iff.1 hread
    obtain ⟨rfl, rfl⟩ := Prod.mk.inj (Option.some.inj hread)
    have hplain := isPlain_of_plainHost? (by simpa using hname) hhost
    exact ⟨fun _ h => Option.some.inj h ▸ hplain, fun n hn => ⟨rfl, of_readPort? hport n hn⟩⟩

namespace Authority.IsPlain

variable {scheme : String} {a : Authority}

theorem toList_text (h : a.IsPlain scheme) :
    a.text.toList = ((a.host.map Host.text).getD "").toList ++ a.portText := by
  have huser : a.userinfo = "" := by simp [userinfo, h.username, h.password]
  cases hport : a.port <;> simp [Authority.text, huser, portText, hport]

theorem isOutsideHost_text (h : a.IsPlain scheme) :
    ∀ c ∈ a.text.toList, isOutsideHost c = false := by
  rw [h.toList_text]
  refine List.forall_mem_append.2 ⟨?_, isOutsideHost_portText a⟩
  cases hhost : a.host with
  | none => simp
  | some host => exact (h.host host hhost).isOutsideHost

/-- A host and port are read as they were written. -/
theorem readHostPort? (h : a.IsPlain scheme) :
    Url.readHostPort? .other scheme a.text.toList = some (a.host, a.port) := by
  obtain ⟨port, hsplit, hport⟩ := readPort?_portText fun port hport => (h.port port hport).2
  rw [h.toList_text, Url.readHostPort?]
  cases hhost : a.host with
  | none =>
      have hnone : a.port = none := by
        cases hsome : a.port with
        | none => rfl
        | some port => simpa [hhost] using (h.port port hsome).1
      simp [hnone, portText, splitHost, SchemeKind.isSpecial]
  | some host =>
      have hplain := h.host host hhost
      have hcut := hplain.splitHost_append a.portText
      have hempty : host.text.toList.isEmpty = false := by simpa using hplain.text_ne_nil
      rw [hsplit, List.append_nil] at hcut
      simp only [Option.map_some, Option.getD_some, hcut, hempty, SchemeKind.isSpecial,
        hplain.read, hport, Bool.false_eq_true, if_false, Option.bind_eq_bind, Option.bind_some,
        Option.pure_def]

/-- An authority is read as it was written, up to the path behind it. -/
theorem readAuthority? (h : a.IsPlain scheme) (last : Bool) {path : UrlPath}
    (hpath : IsPlainPath path) : Url.readAuthority? .other scheme last
      (a.text.toList ++ path.text.toList) = some (a, path) := by
  -- Neither a slash nor a backslash nor an at-sign stands in it, so it is cut off whole.
  have houtside := h.isOutsideHost_text
  have hinside : ∀ c ∈ a.text.toList, (!SchemeKind.other.isSlash c) = true := by
    intro c hc
    have hslash : c ≠ '/' := fun heq => not_mem_of_escaped houtside rfl (heq ▸ hc)
    simp [SchemeKind.isSlash, SchemeKind.isSpecial, hslash]
  have hfront : (a.text.toList ++ path.text.toList).takeWhile (!SchemeKind.other.isSlash ·) =
      a.text.toList ∧ (a.text.toList ++ path.text.toList).dropWhile
        (!SchemeKind.other.isSlash ·) = path.text.toList := by
    rw [List.takeWhile_append_of_pos hinside, List.dropWhile_append_of_pos hinside]
    obtain ⟨segments, -, rfl⟩ := hpath
    by_cases hne : segments = []
    · subst hne
      simp [ofSegments, UrlPath.text]
    · simp [text_ofSegments hne, SchemeKind.isSlash]
  have hsplit : splitAuthority .other (a.text.toList ++ path.text.toList) =
      (a.text.toList, path.text.toList) := by
    rw [splitAuthority_eq, hfront.1, hfront.2]
    rw [hfront.1]
    exact not_mem_of_escaped houtside rfl
  have huser := splitUserinfo_of_not_mem (not_mem_of_escaped houtside (d := '@') rfl)
  have hnobody : readUserinfo [] = (a.username, a.password) := by
    rw [h.username, h.password]
    rfl
  have hfree : a.host = none → a.username = "" ∧ a.password = none :=
    fun _ => ⟨h.username, h.password⟩
  rw [Url.readAuthority?, hsplit]
  simpa [huser, hnobody, h.readHostPort?, hpath.pathAfterAuthority] using hfree

end Authority.IsPlain

/-! ### Whole URLs -/

/-- A URL that is not special and names no user, as it is kept. A path without a root may have
blanks, but not where it ends the URL. -/
inductive IsPlain (u : Url) : Prop
  | authority {a : Authority} (ha : u.authority = some a) (hplain : a.IsPlain u.scheme)
      (hpath : IsPlainPath u.path)
  | rooted {segments : List (List Char)} (hnone : u.authority = none)
      (hpath : u.path = ofSegments segments) (hne : segments ≠ [])
      (hsegments : ∀ s ∈ segments, IsSettled s ∧ ∀ c ∈ s, SchemeKind.other.isSlash c = false)
  | rootless {s : List Char} (hnone : u.authority = none)
      (hpath : u.path = .rootless (String.ofList s)) (hprintable : IsPrintable s)
      (hroot : '/' ∉ s.head?) (hwhole : '#' ∉ s ∧ '?' ∉ s)
      (hends : u.query = none → u.fragment = none → ∃ c ∈ (':' :: s).getLast?, isOuter c = false)

theorem readBody?_rooted {scheme : String} (hscheme : SchemeKind.of scheme = .other) (last : Bool)
    {s rest : List Char} (hs : solid s = '/' :: rest) (hroot : '/' ∉ rest.head?) :
    readBody? scheme last s = some (none, ofSegments (pathSegments .other rest)) := by
  rw [readBody?, hscheme, hs]
  cases rest with
  | nil => rfl
  | cons c rest =>
      have hc : c ≠ '/' := by simpa using hroot
      split <;> simp_all

theorem readBody?_rootless {scheme : String} (hscheme : SchemeKind.of scheme = .other) (last : Bool)
    {s : List Char} (hroot : '/' ∉ (solid s).head?) : readBody? scheme last s =
      some (none, .rootless (String.ofList (escape isAlwaysEscaped (solid s)))) := by
  rw [readBody?, hscheme]
  split <;> simp_all

theorem body_of_none {u : Url} (hnone : u.authority = none) : u.body =
    (if startsWith ['/', '/'] u.path.text.toList then ['/', '.'] else []) ++
      u.path.text.toList := by
  rw [body, beforePath, hnone]
  simp only
  split <;> rfl

theorem startsWith_slashes {s : List Char} :
    startsWith ['/', '/'] ('/' :: s) ↔ '/' ∈ s.head? := by
  cases s with
  | nil => simp [startsWith, dropPrefix?]
  | cons c s =>
      rw [List.head?_cons, Option.mem_some_iff]
      simp [startsWith, dropPrefix?, eq_comm (a := c)]

/-- A path that opens with two slashes gets a dot in front of it. -/
theorem body_of_segments {u : Url} (hnone : u.authority = none) {segments : List (List Char)}
    (hpath : u.path = ofSegments segments) (hne : segments ≠ []) :
    u.body = '/' :: '.' :: '/' :: join ['/'] segments ∨
      u.body = '/' :: join ['/'] segments ∧ '/' ∉ (join ['/'] segments).head? := by
  rw [body_of_none hnone, hpath, text_ofSegments hne]
  split
  · exact .inl rfl
  · rename_i hroot
    exact .inr ⟨rfl, mt startsWith_slashes.2 hroot⟩

theorem body_of_rootless {u : Url} (hnone : u.authority = none) {s : List Char}
    (hpath : u.path = .rootless (String.ofList s)) (hroot : '/' ∉ s.head?) : u.body = s := by
  have hfree : startsWith ['/', '/'] s = false := by
    cases s with
    | nil => rfl
    | cons c s =>
        have hc : '/' ≠ c := fun heq => hroot (heq ▸ rfl)
        simp [startsWith, dropPrefix?, hc]
  rw [body_of_none hnone, hpath, UrlPath.text, String.toList_ofList, hfree]
  rfl

namespace IsPlain

variable {u : Url}

/-- Only a path without a root has blanks. -/
theorem body_cases (h : u.IsPlain) : (∀ c ∈ u.body, isBehindPath c = false) ∨
    IsPrintable u.body ∧ ('#' ∉ u.body ∧ '?' ∉ u.body) ∧
      (u.query = none → u.fragment = none →
        ∃ c ∈ (':' :: u.body).getLast?, isOuter c = false) := by
  cases h with
  | @authority a ha hplain hpath =>
      refine .inl (isBehindPath_body ha (fun c hc => ?_) hpath.written)
      exact Authority.isOutside_of_isOutsideHost (hplain.isOutsideHost_text c hc)
  | @rooted segments hnone hpath hne hsegments =>
      have hwritten := IsPlainPath.written ⟨segments, hsegments, hpath⟩
      have hdot : ∀ c ∈ ['/', '.'], isEscapedInPath c = false :=
        List.forall_mem_cons.2 ⟨rfl, List.forall_mem_singleton.2 rfl⟩
      refine .inl fun c hc => isBehindPath_of_isEscapedInPath ?_
      rw [body_of_none hnone] at hc
      rcases List.mem_append.1 hc with hc | hc
      · split at hc
        · exact hdot c hc
        · simp at hc
      · exact hwritten c hc
  | rootless hnone hpath hprintable hroot hwhole hends =>
      rw [body_of_rootless hnone hpath hroot]
      exact .inr ⟨hprintable, hwhole, hends⟩

theorem isPrintable_body (h : u.IsPlain) : IsPrintable u.body :=
  h.body_cases.elim isPrintable_of_isBehindPath And.left

theorem isWritten (h : u.IsPlain) (hscheme : IsScheme u.scheme.toList)
    (hquery : ∀ text ∈ u.query, ∀ c ∈ text.toList, isEscapedInQueryOf u.scheme c = false)
    (hfragment : ∀ text ∈ u.fragment, ∀ c ∈ text.toList, isEscapedInFragment c = false) :
    u.IsWritten := by
  rcases h.body_cases with hvisible | ⟨-, hwhole, hends⟩
  · exact .of_visible hscheme hvisible hquery hfragment
  · exact ⟨hscheme, hwhole, hends, hquery, hfragment⟩

/-- What stands behind the scheme is read as it was written. -/
theorem readBody?_body (h : u.IsPlain) (hscheme : SchemeKind.of u.scheme = .other) (last : Bool) :
    readBody? u.scheme last u.body = some (u.authority, u.path) := by
  have hsolid := h.isPrintable_body.solid_eq_self
  cases h with
  | @authority a ha hplain hpath =>
      have hread := hplain.readAuthority? last hpath
      rw [readBody?, hscheme, hsolid, body_of_authority ha]
      simp only [hread, Option.map_some, ha]
  | @rooted segments hnone hpath hne hsegments =>
      rcases body_of_segments hnone hpath hne with hbody | ⟨hbody, hroot⟩
      · rw [readBody?_rooted hscheme last (hsolid.trans hbody) (by simp),
          pathSegments_dot hne hsegments, hnone, hpath]
      · rw [readBody?_rooted hscheme last (hsolid.trans hbody) hroot,
          pathSegments_other hne hsegments, hnone, hpath]
  | @rootless s hnone hpath hprintable hroot hwhole hends =>
      have hbody := body_of_rootless hnone hpath hroot
      have hread := readBody?_rootless hscheme last (s := u.body) (by rwa [hsolid, hbody])
      rw [hread, hsolid, hbody, escape_eq_self hprintable, hnone, hpath]

end IsPlain

theorem head?_escape {s : List Char} (h : '/' ∉ s.head?) (escaped : Char → Bool) :
    '/' ∉ (escape escaped s).head? := by
  cases s with
  | nil => exact h
  | cons c s =>
      obtain ⟨b, bs, hbytes, -⟩ := utf8EncodeChar_head c
      rw [escape, List.flatMap_cons]
      split
      · rw [hbytes, List.flatMap_cons]
        simp [escapeByte]
      · exact h

/-- Neither dropping line breaks nor escaping puts a blank at the end. -/
theorem ends_escape {s : List Char} (h : ∃ c ∈ (':' :: s).getLast?, isOuter c = false)
    (escaped : Char → Bool) :
    ∃ c ∈ (':' :: escape escaped (solid s)).getLast?, isOuter c = false := by
  rcases List.eq_nil_or_concat' s with rfl | ⟨front, d, rfl⟩
  · exact ⟨':', rfl, rfl⟩
  · obtain ⟨c, hc, houter⟩ := h
    obtain rfl : c = d := by simpa [List.getLast?_cons, eq_comm] using hc
    have hbreak : isTabOrBreak c = false := by
      have hne : ∀ d, isOuter d → c ≠ d := by
        rintro d hd rfl
        simp [houter] at hd
      simp [isTabOrBreak, hne '\t' rfl, hne '\n' rfl, hne '\r' rfl]
    have hsolid : solid (front ++ [c]) = solid front ++ [c] := by simp [solid, hbreak]
    rw [hsolid, escape, List.flatMap_append, ← List.cons_append]
    refine getLast?_not_outer (escape_ne_nil (List.cons_ne_nil c [])) ?_ _
    exact forall_mem_escape ⟨rfl, by decide⟩ fun e he _ => List.mem_singleton.1 he ▸ houter

/-- What is read of a URL that is not special, but for its user. -/
theorem isPlain_of_readBody? {u : Url} (hscheme : SchemeKind.of u.scheme = .other) {last : Bool}
    {s : List Char} {authority : Option Authority}
    (h : readBody? u.scheme last s = some (authority, u.path))
    (hauthority : u.authority = authority.map Authority.withoutUser)
    (hwhole : '#' ∉ s ∧ '?' ∉ s)
    (hends : u.query = none → u.fragment = none →
      ∃ c ∈ (':' :: s).getLast?, isOuter c = false) : u.IsPlain := by
  rw [readBody?, hscheme] at h
  split at h
  · contradiction
  · contradiction
  · obtain ⟨⟨a, path⟩, hread, heq⟩ := Option.map_eq_some_iff.1 h
    obtain ⟨rfl, rfl⟩ := Prod.mk.inj heq
    obtain ⟨hplain, hpath⟩ := isPlain_of_readAuthority? hread
    exact .authority hauthority hplain hpath
  · obtain ⟨rfl, hpath⟩ := Prod.mk.inj (Option.some.inj h)
    exact .rooted hauthority hpath.symm (pathSegments_ne_nil _ _)
      (isSettled_pathSegments (by decide) _)
  · rename_i hdouble hroot
    obtain ⟨rfl, hpath⟩ := Prod.mk.inj (Option.some.inj h)
    have hhead : '/' ∉ (solid s).head? := by
      cases hs : solid s with
      | nil => simp
      | cons c rest =>
          rintro ⟨⟩
          exact hroot rest hs
    have hmark : ∀ d, SparesEscapes (· == d) → d ∉ s → d ∉ escape isAlwaysEscaped (solid s) := by
      intro d hspares hd
      refine not_mem_of_escaped (forall_mem_escape hspares fun c hc _ => ?_) (beq_self_eq_true d)
      rw [beq_eq_false_iff_ne]
      rintro rfl
      exact hd (List.mem_filter.1 hc).1
    exact .rootless hauthority hpath.symm (isPrintable_escape (fun _ hc => hc) _)
      (head?_escape hhead _) ⟨hmark '#' ⟨rfl, by decide⟩ hwhole.1,
        hmark '?' ⟨rfl, by decide⟩ hwhole.2⟩
      fun hquery hfragment => ends_escape (hends hquery hfragment) _

end TraceExport.Url
