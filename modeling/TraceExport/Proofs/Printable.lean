import TraceExport.Proofs.Identifier
import TraceExport.Url.Origin

/-!
What addresses are written with. Whatever text a URL was read from, its path, query
and fragment are printable ASCII once they are written again, since every set of
escaped characters holds the control characters and all that lies outside ASCII
(`isPrintable_relativeToOrigin`).
-/

namespace TraceExport.Url

open Text

/-- A text of characters that may stand in a URL as they are. -/
def IsPrintable (s : List Char) : Prop := ∀ c ∈ s, isAlwaysEscaped c = false

theorem isPrintable_nil : IsPrintable [] := by simp [IsPrintable]

theorem IsPrintable.append {s t : List Char} (hs : IsPrintable s) (ht : IsPrintable t) :
    IsPrintable (s ++ t) := by
  intro c hc
  exact (List.mem_append.1 hc).elim (hs c) (ht c)

/-! ### Escaped text -/

/-- A class that has neither the percent sign nor a digit of an escape. -/
def SparesEscapes (p : Char → Bool) : Prop :=
  p '%' = false ∧ ∀ n < 16, p (upperHexDigit n) = false

theorem forall_mem_escapeByte {p : Char → Bool} (hp : SparesEscapes p) (b : UInt8) :
    ∀ c ∈ escapeByte b, p c = false := by
  have hlt : b.toNat < 256 := b.toNat_lt
  intro c hc
  simp only [escapeByte, List.mem_cons, List.not_mem_nil, or_false] at hc
  rcases hc with rfl | rfl | rfl
  · exact hp.1
  · exact hp.2 _ (by omega)
  · exact hp.2 _ (by omega)

/-- A text that is escaped has of a class only what is kept of it. -/
theorem forall_mem_escape {escaped p : Char → Bool} (hp : SparesEscapes p) {s : List Char}
    (hs : ∀ c ∈ s, escaped c = false → p c = false) : ∀ c ∈ escape escaped s, p c = false := by
  intro c hc
  obtain ⟨d, hd, hc⟩ := List.mem_flatMap.1 hc
  split at hc
  · obtain ⟨b, -, hc⟩ := List.mem_flatMap.1 hc
    exact forall_mem_escapeByte hp b c hc
  · rename_i hkept
    obtain rfl : c = d := by simpa using hc
    exact hs c hd (by simpa using hkept)

theorem isPrintable_escape {escaped : Char → Bool}
    (hescaped : ∀ c, escaped c = false → isAlwaysEscaped c = false) (s : List Char) :
    IsPrintable (escape escaped s) :=
  forall_mem_escape ⟨rfl, by decide⟩ fun c _ => hescaped c

/-! ### Paths -/

/-- All segments of a path are written in printable characters. -/
def ArePrintable (segments : List (List Char)) : Prop := ∀ segment ∈ segments, IsPrintable segment

theorem isAlwaysEscaped_of_isEscapedInPath {c : Char} (h : isEscapedInPath c = false) :
    isAlwaysEscaped c = false := by
  simp only [isEscapedInPath, isEscapedInFragment, Bool.or_eq_false_iff] at h
  exact h.1.1

theorem mem_of_mem_goUp {s : List Char} {segments : List (List Char)} (h : s ∈ goUp segments) :
    s ∈ segments := by
  cases segments with
  | nil => exact h
  | cons top below =>
      rw [goUp] at h
      split at h
      · exact h
      · exact List.mem_cons_of_mem top h

theorem escaped_path (s : List Char) : ∀ c ∈ escape isEscapedInPath s, isEscapedInPath c = false :=
  forall_mem_escape ⟨rfl, by decide⟩ fun _ _ hc => hc

namespace Walk

/-- What holds of an empty segment and of all that are added holds of all segments. -/
theorem forall_mem_read {P : List Char → Prop} {kind : SchemeKind} (hnil : P [])
    {segments : List (List Char)}
    (hadd : ∀ segment ∈ segments, isSingleDot (solid segment) = false →
      isDoubleDot (solid segment) = false →
        ∀ w : Walk, ∀ s ∈ (w.add kind segment).segments, s ∈ w.segments ∨ P s)
    {w : Walk} (h : ∀ s ∈ w.segments, P s) : ∀ s ∈ (w.read kind segments).segments, P s := by
  induction segments generalizing w with
  | nil => exact h
  | cons segment rest ih =>
      obtain ⟨hfirst, hrest⟩ := List.forall_mem_cons.1 hadd
      -- Dots at the end leave an empty segment behind.
      have hstay : ∀ w' : Walk, (∀ s ∈ w'.segments, P s) →
          ∀ s ∈ (if rest.isEmpty then w'.push [] else w').segments, P s := by
        intro w' h'
        split
        · exact List.forall_mem_cons.2 ⟨hnil, h'⟩
        · exact h'
      rw [read]
      by_cases hdouble : isDoubleDot (solid segment)
      · rw [if_pos hdouble]
        exact ih hrest (hstay w.up fun s hs => h s (mem_of_mem_goUp hs))
      rw [if_neg hdouble]
      by_cases hsingle : isSingleDot (solid segment)
      · rw [if_pos hsingle]
        exact ih hrest (hstay w h)
      · rw [if_neg hsingle]
        refine ih hrest fun s hs => ?_
        exact (hfirst (by simpa using hsingle) (by simpa using hdouble) w s hs).elim (h s) id

theorem escaped_drive {c d : Char} (h : isDriveLetter [c, d]) :
    ∀ e ∈ [c, ':'], isEscapedInPath e = false := by
  have halpha : c.isAlpha := by
    simp only [isDriveLetter, Bool.and_eq_true] at h
    exact h.1.1
  have hletter := isAlpha_iff.1 halpha
  have hlt : c.toNat < 128 := by omega
  have hc := of_forall_ofNat (P := fun c => c.isAlpha → isEscapedInPath c = false)
    (by decide) hlt halpha
  exact List.forall_mem_cons.2 ⟨hc, List.forall_mem_singleton.2 (by decide)⟩

theorem escaped_push (w : Walk) (segment : List Char) : ∀ s ∈ (w.push segment).segments,
    s ∈ w.segments ∨ ∀ c ∈ s, isEscapedInPath c = false :=
  List.forall_mem_cons.2 ⟨.inr (escaped_path segment), fun _ => .inl⟩

theorem escaped_add (kind : SchemeKind) (segment : List Char) (w : Walk) :
    ∀ s ∈ (w.add kind segment).segments,
      s ∈ w.segments ∨ ∀ c ∈ s, isEscapedInPath c = false := by
  unfold add
  split
  · split
    · split
      · rename_i hdrive
        exact List.forall_mem_singleton.2 (.inr (escaped_drive hdrive))
      · exact escaped_push w _
    · intro s hs
      exact (escaped_push _ _ s hs).elim (escaped_push w _ s) .inr
    · exact escaped_push w _
  · exact escaped_push w _

end Walk

theorem escaped_readPath (kind : SchemeKind) (s : List Char) :
    ∀ segment ∈ (readPath kind s).segments, ∀ c ∈ segment, isEscapedInPath c = false :=
  Walk.forall_mem_read (by simp) (fun segment _ _ _ => Walk.escaped_add kind segment)
    (by simp [Walk.start])

theorem arePrintable_readPath (kind : SchemeKind) (s : List Char) :
    ArePrintable (readPath kind s).segments :=
  fun segment hsegment c hc =>
    isAlwaysEscaped_of_isEscapedInPath (escaped_readPath kind s segment hsegment c hc)

/-- The text of a path has the characters of its segments, and slashes. -/
theorem forall_mem_ofSegments {P : Char → Prop} (hslash : P '/') {segments : List (List Char)}
    (h : ∀ segment ∈ segments, ∀ c ∈ segment, P c) :
    ∀ c ∈ (ofSegments segments).text.toList, P c := by
  intro c hc
  simp only [ofSegments, UrlPath.text, String.toList_ofList, List.flatMap_map, List.mem_flatMap,
    List.mem_cons] at hc
  obtain ⟨segment, hsegment, rfl | hc⟩ := hc
  · exact hslash
  · exact h segment hsegment c hc

theorem isPrintable_ofSegments {segments : List (List Char)} (h : ArePrintable segments) :
    IsPrintable (ofSegments segments).text.toList :=
  forall_mem_ofSegments (by decide) h

theorem isPrintable_pathSegments (kind : SchemeKind) (s : List Char) :
    IsPrintable (ofSegments (pathSegments kind s)).text.toList :=
  isPrintable_ofSegments fun segment hsegment =>
    arePrintable_readPath kind s segment (List.mem_reverse.1 hsegment)

theorem isPrintable_pathAfterAuthority (kind : SchemeKind) (s : List Char) :
    IsPrintable (pathAfterAuthority kind s).text.toList := by
  unfold pathAfterAuthority
  split
  · split
    · exact isPrintable_ofSegments (by simp [ArePrintable, isPrintable_nil])
    · exact isPrintable_ofSegments (by simp [ArePrintable])
  · split
    · exact isPrintable_pathSegments kind _
    · exact isPrintable_pathSegments kind _

/-- A file has the segments that have been read, or a single empty one. -/
theorem Walk.exists_filePath (w : Walk) : ∃ segments,
    (∀ s ∈ segments, s = [] ∨ s ∈ w.segments) ∧ w.filePath = ofSegments segments := by
  unfold Walk.filePath
  split
  · exact ⟨[[]], by simp, rfl⟩
  · rename_i hsegments
    refine ⟨_, fun s hs => .inr ?_, rfl⟩
    exact List.mem_reverse.1 ((List.dropWhile_suffix List.isEmpty).subset hs)

theorem escaped_filePath (s : List Char) :
    ∀ c ∈ (readPath .file s).filePath.text.toList, isEscapedInPath c = false := by
  obtain ⟨segments, hsegments, hpath⟩ := (readPath .file s).exists_filePath
  rw [hpath]
  refine forall_mem_ofSegments (by decide) fun segment hsegment => ?_
  rcases hsegments segment hsegment with rfl | hread
  · simp
  · exact escaped_readPath .file s segment hread

/-! ### Whole URLs -/

/-- How the authority and the path of a file have been read. -/
theorem of_readFile? {s : List Char} {a : Authority} {path : UrlPath}
    (h : readFile? s = some (a, path)) : ∃ host t, a = ⟨"", none, host, none⟩ ∧
      path = (readPath .file t).filePath ∧ ∀ h ∈ host, ∃ name, specialHost? name = some h := by
  have hfile : ∀ t, (a, path) = ofFile t → ∃ host t, a = ⟨"", none, host, none⟩ ∧
      path = (readPath .file t).filePath ∧ ∀ h ∈ host, ∃ name, specialHost? name = some h := by
    rintro t ⟨⟩
    exact ⟨none, t, rfl, rfl, by simp⟩
  unfold readFile? at h
  split at h
  · exact hfile _ (Option.some.inj h).symm
  split at h
  · exact hfile _ (Option.some.inj h).symm
  unfold readFileAuthority? at h
  simp only at h
  split at h
  · exact hfile _ (Option.some.inj h).symm
  split at h
  · exact hfile _ (Option.some.inj h).symm
  simp only [Option.bind_eq_bind, Option.bind_eq_some_iff] at h
  obtain ⟨host, hhost, h⟩ := h
  split at h
  · exact hfile _ (Option.some.inj h).symm
  · cases h
    refine ⟨_, _, rfl, rfl, fun h hh => ?_⟩
    split at hh
    · cases hh
    · cases hh
      exact ⟨_, hhost⟩

theorem isPrintable_readFile {s : List Char} {r : Authority × UrlPath}
    (h : readFile? s = some r) : IsPrintable r.2.text.toList := by
  obtain ⟨-, t, -, hpath, -⟩ := of_readFile? h
  rw [hpath]
  exact fun c hc => isAlwaysEscaped_of_isEscapedInPath (escaped_filePath t c hc)

/-- How an authority and the path after it have been read. -/
theorem of_readAuthority? {kind : SchemeKind} {scheme : String} {last : Bool} {s : List Char}
    {a : Authority} {path : UrlPath} (h : readAuthority? kind scheme last s = some (a, path)) :
    ∃ authority rest userinfo hostPort, splitAuthority kind s = (authority, rest) ∧
      splitUserinfo authority = (userinfo, hostPort) ∧
      readUserinfo (userinfo.getD []) = (a.username, a.password) ∧
      readHostPort? kind scheme hostPort = some (a.host, a.port) ∧
      path = pathAfterAuthority kind rest := by
  unfold readAuthority? at h
  simp only [Option.bind_eq_bind] at h
  split at h
  · simp at h
  · obtain ⟨⟨host, port⟩, hread, h⟩ := Option.bind_eq_some_iff.1 h
    split at h
    · simp at h
    · cases h
      exact ⟨_, _, _, _, rfl, rfl, rfl, hread, rfl⟩

/-- Only a host has a user. -/
theorem host_of_readAuthority? {kind : SchemeKind} {scheme : String} {last : Bool} {s : List Char}
    {a : Authority} {path : UrlPath} (h : readAuthority? kind scheme last s = some (a, path)) :
    (∃ host, a.host = some host) ∨ a.username = "" ∧ a.password = none := by
  unfold readAuthority? at h
  simp only [Option.bind_eq_bind] at h
  split at h
  · simp at h
  · obtain ⟨⟨host, port⟩, -, h⟩ := Option.bind_eq_some_iff.1 h
    split at h
    · simp at h
    · rename_i hnobody
      cases h
      cases host with
      | none => exact .inr (by simpa using hnobody)
      | some host => exact .inl ⟨host, rfl⟩

theorem isPrintable_readAuthority {kind : SchemeKind} {scheme : String} {last : Bool}
    {s : List Char} {r : Authority × UrlPath} (h : readAuthority? kind scheme last s = some r) :
    IsPrintable r.2.text.toList := by
  obtain ⟨-, rest, -, -, -, -, -, -, hpath⟩ := of_readAuthority? h
  rw [hpath]
  exact isPrintable_pathAfterAuthority kind rest

theorem isPrintable_readBody {scheme : String} {last : Bool} {s : List Char}
    {r : Option Authority × UrlPath} (h : readBody? scheme last s = some r) :
    IsPrintable r.2.text.toList := by
  unfold readBody? at h
  split at h
  · obtain ⟨file, hfile, rfl⟩ := Option.map_eq_some_iff.1 h
    exact isPrintable_readFile hfile
  · obtain ⟨read, hread, rfl⟩ := Option.map_eq_some_iff.1 h
    exact isPrintable_readAuthority hread
  · obtain ⟨read, hread, rfl⟩ := Option.map_eq_some_iff.1 h
    exact isPrintable_readAuthority hread
  · cases h
    exact isPrintable_pathSegments .other _
  · cases h
    simpa [UrlPath.text] using isPrintable_escape (fun _ h => h) _

/-- A URL whose parts behind the origin are written in printable characters. -/
structure Printable (u : Url) : Prop where
  path : IsPrintable u.path.text.toList
  query : ∀ text ∈ u.query, IsPrintable text.toList
  fragment : ∀ text ∈ u.fragment, IsPrintable text.toList

/-- How a URL has been read. -/
theorem of_parse? {text : String} {u : Url} (h : parse? text = some u) :
    ∃ front fragment main query body,
      cutAt '#' (withoutOuter text.toList) = (front, fragment) ∧ cutAt '?' front = (main, query) ∧
      readScheme? main = some (u.scheme, body) ∧
      readBody? u.scheme (query.isNone && fragment.isNone) body = some (u.authority, u.path) ∧
      u.query = query.map (fun s => String.ofList (escape
        (if (SchemeKind.of u.scheme).isSpecial then isEscapedInSpecialQuery else isEscapedInQuery)
        (solid s))) ∧
      u.fragment = fragment.map fun s => String.ofList (escape isEscapedInFragment (solid s)) := by
  unfold parse? at h
  simp only [Option.bind_eq_bind, Option.bind_eq_some_iff] at h
  obtain ⟨⟨scheme, body⟩, hscheme, ⟨authority, path⟩, hbody, h⟩ := h
  cases h
  exact ⟨_, _, _, _, body, rfl, rfl, hscheme, hbody, rfl, rfl⟩

theorem printable_parse {text : String} {u : Url} (h : parse? text = some u) : u.Printable := by
  obtain ⟨-, fragment, -, query, body, -, -, -, hbody, hquery, hfragment⟩ := of_parse? h
  refine ⟨isPrintable_readBody hbody, fun text htext => ?_, fun text htext => ?_⟩
  · rw [hquery] at htext
    obtain ⟨s, -, rfl⟩ := Option.map_eq_some_iff.1 htext
    rw [String.toList_ofList]
    refine isPrintable_escape (fun c hc => ?_) _
    split at hc
    · simp_all [isEscapedInSpecialQuery, isEscapedInQuery]
    · simp_all [isEscapedInQuery]
  · rw [hfragment] at htext
    obtain ⟨s, -, rfl⟩ := Option.map_eq_some_iff.1 htext
    rw [String.toList_ofList]
    exact isPrintable_escape (by simp +contextual [isEscapedInFragment]) _

theorem isPrintable_marked {mark : String} (hmark : IsPrintable mark.toList)
    {part : Option String} (h : ∀ text ∈ part, IsPrintable text.toList) :
    IsPrintable (marked mark (part.filter (· != ""))).toList := by
  cases hpart : part.filter (· != "") with
  | none => exact isPrintable_nil
  | some text =>
      rw [marked, String.toList_append]
      exact hmark.append (h text (Option.filter_eq_some_iff.1 hpart).1)

theorem isPrintable_relativeToOrigin {base url path : String}
    (h : relativeToOrigin? base url = some path) : IsPrintable path.toList := by
  unfold relativeToOrigin? at h
  simp only [Option.bind_eq_bind, Option.bind_eq_some_iff] at h
  obtain ⟨u, hparse, b, -, origin, -, origin', -, h⟩ := h
  split at h
  · cases h
    obtain ⟨hpath, hquery, hfragment⟩ := printable_parse hparse
    simp only [afterOrigin, String.toList_append]
    refine (hpath.append (isPrintable_marked ?_ hquery)).append (isPrintable_marked ?_ hfragment)
    all_goals simp [IsPrintable]; decide
  · simp at h

end TraceExport.Url
