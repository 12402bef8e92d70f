import TraceExport.Proofs.Lexeme
import TraceExport.Proofs.Path
import TraceExport.Proofs.Printable

/-!
Parts of a URL as they are written. Escaping leaves a text alone that it has gone over before, no
mark that cuts a URL is left in front of its place, and a segment of a path is never taken for
dots. So the path of a special URL is read from its text again (`pathSegments_join`), and what
follows it is cut off where it was written.
-/

namespace TraceExport.Url

open Text

/-! ### Text that is left alone -/

theorem escape_eq_self {escaped : Char → Bool} {s : List Char} (h : ∀ c ∈ s, escaped c = false) :
    escape escaped s = s := by
  induction s with
  | nil => rfl
  | cons c s ih =>
      obtain ⟨hc, hs⟩ := List.forall_mem_cons.1 h
      have hrest := ih hs
      simp only [escape] at hrest ⊢
      simp [hc, hrest]

theorem isTabOrBreak_of_isAlwaysEscaped {c : Char} (h : isAlwaysEscaped c = false) :
    isTabOrBreak c = false := by
  have hne : ∀ d, isAlwaysEscaped d → c ≠ d := by
    rintro d hd rfl
    simp [h] at hd
  simp [isTabOrBreak, hne '\t' rfl, hne '\n' rfl, hne '\r' rfl]

theorem isOuter_of_isAlwaysEscaped {c : Char} (h : isAlwaysEscaped c = false) (hc : c ≠ ' ') :
    isOuter c = false := by
  have hblank : ' '.toNat = 32 := rfl
  rw [Ne, eq_iff_toNat, hblank] at hc
  simp only [isAlwaysEscaped, Bool.or_eq_false_iff, decide_eq_false_iff_not] at h
  simp only [isOuter, decide_eq_false_iff_not]
  omega

theorem IsPrintable.solid_eq_self {s : List Char} (h : IsPrintable s) : solid s = s :=
  List.filter_eq_self.2 fun c hc => by simp [isTabOrBreak_of_isAlwaysEscaped (h c hc)]

theorem dropWhile_eq_self {p : Char → Bool} {s : List Char} (h : ∀ c ∈ s, p c = false) :
    s.dropWhile p = s := by
  cases s with
  | nil => rfl
  | cons c s => simp [h c List.mem_cons_self]

theorem withoutOuter_eq_self {s : List Char} (hs : IsPrintable s) (hblank : ' ' ∉ s) :
    withoutOuter s = s := by
  have houter : ∀ c ∈ s, isOuter c = false := fun c hc =>
    isOuter_of_isAlwaysEscaped (hs c hc) fun heq => hblank (heq ▸ hc)
  rw [withoutOuter, trimEndOf, dropWhile_eq_self houter, dropWhile_eq_self, List.reverse_reverse]
  exact fun c hc => houter c (List.mem_reverse.1 hc)

/-! ### Marks -/

theorem ne_mark_of_not_mem {mark : Char} {s : List Char} (h : mark ∉ s) :
    ∀ c ∈ s, (c != mark) = true := by
  intro c hc
  rw [bne_iff_ne]
  rintro rfl
  exact h hc

/-- What stands in front of the mark is not looked at. -/
theorem cutAt_append {mark : Char} {s : List Char} (h : mark ∉ s) (t : List Char) :
    cutAt mark (s ++ t) = (s ++ (cutAt mark t).1, (cutAt mark t).2) := by
  have hall := ne_mark_of_not_mem h
  unfold cutAt
  rw [List.dropWhile_append_of_pos hall, List.takeWhile_append_of_pos hall]
  split <;> rfl

theorem cutAt_of_not_mem {mark : Char} {s : List Char} (h : mark ∉ s) :
    cutAt mark s = (s, none) := by
  simpa [cutAt] using cutAt_append h []

theorem cutAt_mark {mark : Char} {s : List Char} (h : mark ∉ s) (t : List Char) :
    cutAt mark (s ++ mark :: t) = (s, some t) := by
  simpa [cutAt] using cutAt_append h (mark :: t)

theorem of_cutAt {mark : Char} {s front rest : List Char} (h : cutAt mark s = (front, some rest)) :
    s = front ++ mark :: rest ∧ mark ∉ front := by
  unfold cutAt at h
  split at h
  · cases h
  · rename_i c rest hdrop
    cases h
    have hmark : c = mark := by
      have hnot := List.head?_dropWhile_not (· != mark) s
      rw [hdrop] at hnot
      simpa using hnot
    have hsplit := List.takeWhile_append_dropWhile (p := (· != mark)) (l := s)
    rw [hdrop, hmark] at hsplit
    refine ⟨hsplit.symm, fun hmem => ?_⟩
    simpa using List.all_eq_true.1 List.all_takeWhile mark hmem

/-- A part is cut off behind its mark. -/
theorem cutAt_marked {mark : Char} {s : List Char} (h : mark ∉ s) (part : Option String) :
    cutAt mark (s ++ (marked (String.singleton mark) part).toList) =
      (s, part.map String.toList) := by
  cases part with
  | none => simpa [marked] using cutAt_of_not_mem h
  | some text => simpa [marked] using cutAt_mark h text.toList

theorem cutAt_fst (mark : Char) (s : List Char) : (cutAt mark s).1 = s.takeWhile (· != mark) := by
  unfold cutAt
  split
  · rename_i h
    exact (List.takeWhile_eq_self_iff.2 (List.dropWhile_eq_nil_iff.1 h)).symm
  · rfl

/-- What stands in front of a mark has none. -/
theorem of_cutAt_fst {mark : Char} {s front : List Char} {part : Option (List Char)}
    (h : cutAt mark s = (front, part)) : front <+: s ∧ mark ∉ front := by
  have hfront := cutAt_fst mark s
  rw [h] at hfront
  simp only at hfront
  rw [hfront]
  refine ⟨List.takeWhile_prefix _, fun hmem => ?_⟩
  simpa using List.all_eq_true.1 List.all_takeWhile mark hmem

theorem of_cutAt_none {mark : Char} {s front : List Char} (h : cutAt mark s = (front, none)) :
    s = front := by
  unfold cutAt at h
  split at h
  · exact congrArg Prod.fst h
  · cases h

/-- What is read of a URL before its query and fragment. -/
def mainOf (s : List Char) : List Char :=
  ((withoutOuter s).takeWhile (· != '#')).takeWhile (· != '?')

theorem mainOf_eq {s front main : List Char} {fragment query : Option (List Char)}
    (hfront : cutAt '#' (withoutOuter s) = (front, fragment))
    (hmain : cutAt '?' front = (main, query)) : mainOf s = main := by
  have hfirst := cutAt_fst '#' (withoutOuter s)
  have hsecond := cutAt_fst '?' front
  rw [hfront] at hfirst
  rw [hmain] at hsecond
  rw [mainOf, ← hfirst, ← hsecond]

theorem mainOf_prefix (s : List Char) : mainOf s <+: s.dropWhile isOuter :=
  (List.takeWhile_prefix _).trans ((List.takeWhile_prefix _).trans (trimEndOf_isPrefix _ _))

theorem withoutOuter_cons {s t : List Char} {c : Char} (h : s.dropWhile isOuter = c :: t) :
    ∃ rest, withoutOuter s = c :: rest := by
  have houter : isOuter c = false := by
    have hnot := List.head?_dropWhile_not isOuter s
    rw [h] at hnot
    exact hnot
  rw [withoutOuter, h, trimEndOf, List.reverse_cons, List.dropWhile_append]
  split
  · exact ⟨[], by simp [houter]⟩
  · exact ⟨(t.reverse.dropWhile isOuter).reverse, by simp⟩

theorem mainOf_cons {s t : List Char} {c : Char} (h : s.dropWhile isOuter = c :: t)
    (hhash : c ≠ '#') (hmark : c ≠ '?') : ∃ rest, mainOf s = c :: rest := by
  obtain ⟨rest, htrim⟩ := withoutOuter_cons h
  exact ⟨(rest.takeWhile (· != '#')).takeWhile (· != '?'), by simp [mainOf, htrim, hhash, hmark]⟩

theorem dropWhile_append_cons {p : Char → Bool} {s : List Char} (hs : ∃ c ∈ s, p c = false)
    (t : List Char) : (s ++ t).dropWhile p = s.dropWhile p ++ t := by
  rw [List.dropWhile_append, if_neg]
  simpa using hs

theorem withoutOuter_of_last {s : List Char} {c : Char} (hc : isOuter c = false) :
    withoutOuter (s ++ [c]) = (s ++ [c]).dropWhile isOuter := by
  have hsome : (s ++ [c]).dropWhile isOuter = (s.dropWhile isOuter) ++ [c] := by
    rw [List.dropWhile_append]
    split
    · simp_all
    · rfl
  rw [withoutOuter, hsome, trimEndOf_append hc]
  simp [trimEndOf]

/-- Blanks at the seam of two texts are not dropped. -/
theorem withoutOuter_append {s t : List Char} (hs : ∃ c ∈ s.getLast?, isOuter c = false)
    (ht : ∃ c ∈ t.head?, isOuter c = false) :
    withoutOuter (s ++ t) = withoutOuter s ++ withoutOuter t := by
  obtain ⟨c, hc, hlast⟩ := hs
  obtain ⟨s, rfl⟩ := List.getLast?_eq_some_iff.1 hc
  obtain ⟨d, hd, hfirst⟩ := ht
  obtain ⟨t, rfl⟩ := List.head?_eq_some_iff.1 hd
  have hwhole : withoutOuter (d :: t) = d :: trimEndOf isOuter t := by
    have htrim := trimEndOf_append hfirst [] t
    rw [List.nil_append, List.nil_append] at htrim
    rw [withoutOuter, List.dropWhile_cons_of_neg (by simp [hfirst]), htrim]
  rw [withoutOuter_of_last hlast, hwhole, withoutOuter, dropWhile_append_cons ⟨c, by simp, hlast⟩,
    trimEndOf_append hfirst]

theorem of_readScheme? {main body : List Char} {scheme : String}
    (h : readScheme? main = some (scheme, body)) : ∃ name, main = name ++ ':' :: body ∧
      ∃ c ∈ (solid name).head?, c.isAlpha := by
  unfold readScheme? at h
  split at h
  · rename_i name rest hcut
    simp only at h
    split at h
    · rename_i hname
      cases h
      refine ⟨name, (of_cutAt hcut).1, ?_⟩
      rw [Bool.and_eq_true] at hname
      cases hhead : (solid name).head? with
      | none => simp [hhead] at hname
      | some c => exact ⟨c, rfl, by simpa [hhead] using hname.1⟩
    · cases h
  · cases h

/-- A scheme opens with a letter. -/
theorem readScheme?_eq_none {c : Char} (hc : c.isAlpha = false) (htab : isTabOrBreak c = false)
    (s : List Char) : readScheme? (c :: s) = none := by
  cases hread : readScheme? (c :: s) with
  | none => rfl
  | some r =>
      obtain ⟨name, hname, d, hd, halpha⟩ := of_readScheme? hread
      cases name with
      | nil => simp [solid] at hd
      | cons e name =>
          obtain ⟨rfl, -⟩ := List.cons.inj hname
          obtain rfl : c = d := by simpa [solid, htab] using hd
          simp [hc] at halpha

/-- A scheme ends at its colon, whatever follows what follows it. -/
theorem readScheme?_append {s body : List Char} {scheme : String}
    (h : readScheme? s = some (scheme, body)) (t : List Char) :
    readScheme? (s ++ t) = some (scheme, body ++ t) := by
  unfold readScheme? at h
  split at h
  · rename_i name rest hcut
    obtain ⟨rfl, hcolon⟩ := of_cutAt hcut
    simp only at h
    split at h
    · rename_i hname
      cases h
      rw [readScheme?, List.append_assoc, List.cons_append, cutAt_mark hcolon]
      exact if_pos hname
    · cases h
  · cases h

/-! ### Segments -/

/-- A segment that is read as it is written: it has nothing to escape and is no dots. -/
structure IsSettled (s : List Char) : Prop where
  written : ∀ c ∈ s, isEscapedInPath c = false
  stays : isSingleDot s = false
  falls : isDoubleDot s = false

/-- A segment of the path of a special URL. -/
structure IsSegment (s : List Char) : Prop where
  written : ∀ c ∈ s, isEscapedInPath c = false
  whole : ∀ c ∈ s, SchemeKind.special.isSlash c = false
  stays : isSingleDot s = false
  falls : isDoubleDot s = false

theorem isSegment_iff {s : List Char} :
    IsSegment s ↔ IsSettled s ∧ ∀ c ∈ s, SchemeKind.special.isSlash c = false :=
  ⟨fun h => ⟨⟨h.written, h.stays, h.falls⟩, h.whole⟩,
    fun h => ⟨h.1.written, h.2, h.1.stays, h.1.falls⟩⟩

theorem isSettled_nil : IsSettled [] := ⟨by simp, rfl, rfl⟩

theorem isSegment_nil : IsSegment [] := isSegment_iff.2 ⟨isSettled_nil, by simp⟩

theorem IsSettled.isPrintable {s : List Char} (h : IsSettled s) : IsPrintable s :=
  fun c hc => isAlwaysEscaped_of_isEscapedInPath (h.written c hc)

/-- The texts that are read as dots, in small letters. -/
def dots : List (List Char) :=
  ["."  , "%2e", "..", ".%2e", "%2e.", "%2e%2e"].map String.toList

theorem isDots_iff {s : List Char} :
    isSingleDot s || isDoubleDot s ↔ s.map Char.toLower ∈ dots := by
  simp [isSingleDot, isDoubleDot, dots, or_assoc]

/-- A percent sign in dots opens the escape of a dot. -/
theorem percent_of_dots {x y : List Char} {h l : Char}
    (hs : (x ++ '%' :: h :: l :: y).map Char.toLower ∈ dots) :
    h.toLower = '2' ∧ l.toLower = 'e' := by
  have hpercent : '%'.toLower = '%' := rfl
  have hshort : x.length ≤ 3 := by
    have hlength : ∀ form ∈ dots, form.length ≤ 6 := by decide
    have hle := hlength _ hs
    simp at hle
    omega
  simp only [dots, List.map_cons, List.map_nil, List.mem_cons, List.not_mem_nil, or_false,
    List.map_append, hpercent] at hs
  match x, hshort with
  | [], _ => simp at hs; grind
  | [a], _ => simp at hs; grind
  | [a, b], _ => simp at hs
  | [a, b, c], _ => simp at hs; grind

theorem upperHexDigit_eq : ∀ n < 16,
    ((upperHexDigit n).toLower = '2' → n = 2) ∧ ((upperHexDigit n).toLower = 'e' → n = 14) := by
  decide

/-- Only a dot is written in bytes that may be taken for a dot. -/
theorem utf8EncodeChar_head (c : Char) : ∃ b bs, String.utf8EncodeChar c = b :: bs ∧
    (b.toNat = 46 → c = '.') := by
  have hdot : '.'.toNat = 46 := rfl
  rw [eq_iff_toNat, hdot]
  have hmod : ∀ n, (UInt8.ofNat n).toNat = n % 256 := fun n => rfl
  unfold String.utf8EncodeChar
  simp only
  split
  · rename_i hsmall
    refine ⟨_, _, rfl, fun h => ?_⟩
    change c.toNat ≤ 127 at hsmall
    change c.toNat % 256 = 46 at h
    omega
  split
  · refine ⟨_, _, rfl, fun h => ?_⟩
    rw [hmod] at h
    omega
  split
  · refine ⟨_, _, rfl, fun h => ?_⟩
    rw [hmod] at h
    omega
  · refine ⟨_, _, rfl, fun h => ?_⟩
    rw [hmod] at h
    omega

/-- Escaping makes no dots. -/
theorem not_dots_of_escape {escaped : Char → Bool} (hdot : escaped '.' = false) {s : List Char}
    (h : (escape escaped s).map Char.toLower ∈ dots) : s.map Char.toLower ∈ dots := by
  by_cases hkept : ∀ c ∈ s, escaped c = false
  · rwa [escape_eq_self hkept] at h
  · exfalso
    push Not at hkept
    obtain ⟨c, hc, hescaped⟩ := hkept
    obtain ⟨front, back, rfl⟩ := List.append_of_mem hc
    obtain ⟨b, bs, hbytes, hb⟩ := utf8EncodeChar_head c
    have hlt : b.toNat < 256 := b.toNat_lt
    have hshape : escape escaped (front ++ c :: back) =
        escape escaped front ++ '%' :: upperHexDigit (b.toNat / 16) ::
          upperHexDigit (b.toNat % 16) :: (bs.flatMap escapeByte ++ escape escaped back) := by
      simp [escape, hescaped, hbytes, escapeByte]
    rw [hshape] at h
    obtain ⟨hhigh, hlow⟩ := percent_of_dots h
    have htwo := (upperHexDigit_eq _ (by omega)).1 hhigh
    have hfourteen := (upperHexDigit_eq _ (by omega)).2 hlow
    have hc := hb (by omega)
    rw [hc, hdot] at hescaped
    exact hescaped rfl

theorem isSettled_escape {s : List Char} (hsingle : isSingleDot s = false)
    (hdouble : isDoubleDot s = false) : IsSettled (escape isEscapedInPath s) := by
  have hdots : s.map Char.toLower ∉ dots := by
    rw [← isDots_iff, hsingle, hdouble]
    exact Bool.false_ne_true
  have hescaped : (escape isEscapedInPath s).map Char.toLower ∉ dots :=
    mt (not_dots_of_escape rfl) hdots
  rw [← isDots_iff, Bool.not_eq_true, Bool.or_eq_false_iff] at hescaped
  exact ⟨escaped_path s, hescaped.1, hescaped.2⟩

/-! ### Paths -/

theorem sparesEscapes_isSlash (kind : SchemeKind) : SparesEscapes kind.isSlash := by
  cases kind <;> exact ⟨rfl, by decide⟩

namespace Walk

variable {kind : SchemeKind}

/-- The path of a file may open with a drive; every other one adds what it is given. -/
theorem add_eq_push (hkind : kind ≠ .file) (w : Walk) (s : List Char) :
    w.add kind s = w.push (solid s) := by
  simp [add, hkind]

/-- Segments are read as they are written. -/
theorem segments_read (hkind : kind ≠ .file) {segments : List (List Char)}
    (h : ∀ s ∈ segments, IsSettled s) (w : Walk) :
    (w.read kind segments).segments = segments.reverse ++ w.segments := by
  induction segments generalizing w with
  | nil => rfl
  | cons segment rest ih =>
      obtain ⟨hsegment, hrest⟩ := List.forall_mem_cons.1 h
      have hsolid := hsegment.isPrintable.solid_eq_self
      rw [read, hsolid, hsegment.falls, hsegment.stays, add_eq_push hkind, hsolid]
      simp [ih hrest, push, escape_eq_self hsegment.written]

end Walk

theorem isSettled_pathSegments {kind : SchemeKind} (hkind : kind ≠ .file) (s : List Char) :
    ∀ segment ∈ pathSegments kind s,
      IsSettled segment ∧ ∀ c ∈ segment, kind.isSlash c = false := by
  intro segment hsegment
  refine Walk.forall_mem_read (w := Walk.start)
    (P := fun segment => IsSettled segment ∧ ∀ c ∈ segment, kind.isSlash c = false)
    ⟨isSettled_nil, by simp⟩ (fun piece hpiece hsingle hdouble w => ?_) (by simp [Walk.start])
    segment (List.mem_reverse.1 hsegment)
  rw [Walk.add_eq_push hkind]
  refine List.forall_mem_cons.2 ⟨.inr ⟨isSettled_escape hsingle hdouble, ?_⟩, fun _ => .inl⟩
  refine forall_mem_escape (sparesEscapes_isSlash kind) fun c hc _ => ?_
  exact eq_false_of_mem_splitOn hpiece c (List.mem_filter.1 hc).1

/-- A path is read from its text again. -/
theorem pathSegments_join_of_ne_file {kind : SchemeKind} (hkind : kind ≠ .file)
    {segments : List (List Char)} (hne : segments ≠ []) (hsettled : ∀ s ∈ segments, IsSettled s)
    (hwhole : ∀ s ∈ segments, ∀ c ∈ s, kind.isSlash c = false) :
    pathSegments kind (join ['/'] segments) = segments := by
  rw [pathSegments, readPath, splitOn_join rfl hne hwhole, Walk.segments_read hkind hsettled]
  simp [Walk.start]

theorem isSegment_of_mem_pathSegments (s : List Char) :
    ∀ segment ∈ pathSegments .special s, IsSegment segment :=
  fun segment hsegment =>
    isSegment_iff.2 (isSettled_pathSegments (by decide) s segment hsegment)

theorem pathSegments_join {segments : List (List Char)} (hne : segments ≠ [])
    (h : ∀ s ∈ segments, IsSegment s) : pathSegments .special (join ['/'] segments) = segments :=
  pathSegments_join_of_ne_file (by decide) hne (fun s hs => (isSegment_iff.1 (h s hs)).1)
    fun s hs => (h s hs).whole

theorem Walk.segments_read_ne_nil (kind : SchemeKind) {segments : List (List Char)}
    (h : segments ≠ []) (w : Walk) : (w.read kind segments).segments ≠ [] := by
  induction segments generalizing w with
  | nil => exact absurd rfl h
  | cons segment rest ih =>
      rw [read]
      cases rest with
      | cons next rest =>
          split
          · exact ih (by simp) _
          split
          · exact ih (by simp) _
          · exact ih (by simp) _
      | nil =>
          split
          · simp [read, push]
          split
          · simp [read, push]
          · rw [read, add]
            split
            · split
              · split <;> simp [push]
              · simp [push]
              · simp [push]
            · simp [push]

theorem pathSegments_ne_nil (kind : SchemeKind) (s : List Char) : pathSegments kind s ≠ [] := by
  rw [pathSegments, readPath, Ne, List.reverse_eq_nil_iff]
  exact Walk.segments_read_ne_nil kind (splitOn_ne_nil _ s) _

/-- A path of a special URL, as it is written. -/
def IsPath (path : UrlPath) : Prop :=
  ∃ segments, segments ≠ [] ∧ (∀ s ∈ segments, IsSegment s) ∧ path = ofSegments segments

theorem isPath_pathSegments (s : List Char) : IsPath (ofSegments (pathSegments .special s)) :=
  ⟨_, pathSegments_ne_nil _ s, isSegment_of_mem_pathSegments s, rfl⟩

theorem isPath_pathAfterAuthority (s : List Char) : IsPath (pathAfterAuthority .special s) := by
  unfold pathAfterAuthority
  split
  · exact ⟨[[]], by simp, by simp [isSegment_nil], rfl⟩
  · split
    · exact isPath_pathSegments _
    · exact isPath_pathSegments _

theorem text_ofSegments {segments : List (List Char)} (h : segments ≠ []) :
    (ofSegments segments).text.toList = '/' :: join ['/'] segments := by
  rw [ofSegments, UrlPath.text, String.toList_ofList, List.flatMap_map]
  simp only [String.toList_ofList]
  induction segments with
  | nil => exact absurd rfl h
  | cons segment rest ih =>
      cases rest with
      | nil => simp [join]
      | cons next rest =>
          rw [List.flatMap_cons, ih (by simp)]
          simp [join]

theorem IsPath.written {path : UrlPath} (h : IsPath path) :
    ∀ c ∈ path.text.toList, isEscapedInPath c = false := by
  obtain ⟨segments, -, hsegments, rfl⟩ := h
  exact forall_mem_ofSegments (by decide) fun segment hsegment => (hsegments segment hsegment).written

theorem IsPath.backslash_not_mem {path : UrlPath} (h : IsPath path) :
    '\\' ∉ path.text.toList := by
  obtain ⟨segments, -, hsegments, rfl⟩ := h
  have hall := forall_mem_ofSegments (P := (· ≠ '\\')) (by decide)
    fun segment hsegment c hc (heq : c = '\\') =>
      absurd ((hsegments segment hsegment).whole c hc) (heq ▸ by decide)
  exact fun hmem => hall _ hmem rfl

/-! ### Authorities -/

theorem suffix_of_splitHost {inside : Bool} {s name port : List Char}
    (h : splitHost inside s = (name, some port)) : port <:+ s := by
  induction s generalizing inside name with
  | nil => simp [splitHost] at h
  | cons c s ih =>
      rw [splitHost] at h
      split at h
      · obtain ⟨-, hport⟩ := Prod.mk.inj h
        cases hport
        exact List.suffix_cons c port
      · obtain ⟨-, hport⟩ := Prod.mk.inj h
        exact (ih (Prod.ext rfl hport)).trans (List.suffix_cons c s)

theorem suffix_splitUserinfo (s : List Char) : (splitUserinfo s).2 <:+ s := by
  unfold splitUserinfo
  split
  · have hprefix := List.takeWhile_prefix (l := s.reverse) (· != '@')
    exact List.reverse_prefix.1 (by simpa using hprefix)
  · exact List.suffix_refl s

/-- An authority without a backslash goes to the first slash. -/
theorem splitAuthority_eq {kind : SchemeKind} {s : List Char}
    (h : '\\' ∉ s.takeWhile (!kind.isSlash ·)) : splitAuthority kind s =
      (s.takeWhile (!kind.isSlash ·), s.dropWhile (!kind.isSlash ·)) := by
  unfold splitAuthority
  simp only
  split
  · rename_i name port hport
    have hsuffix := (suffix_of_splitHost hport).trans (suffix_splitUserinfo _)
    have hback := ne_mark_of_not_mem fun hmem => h (hsuffix.subset hmem)
    have hnone : port.dropWhile (· != '\\') = [] := by simpa using hback
    rw [hnone]
    simp
  · rfl

theorem splitAuthority_special (s : List Char) : splitAuthority .special s =
    (s.takeWhile (!SchemeKind.special.isSlash ·), s.dropWhile (!SchemeKind.special.isSlash ·)) :=
  splitAuthority_eq fun hmem => by
    have hslash := List.all_eq_true.1 List.all_takeWhile _ hmem
    simp [SchemeKind.isSlash, SchemeKind.isSpecial] at hslash

/-! ### Behind the authority -/

/-- What is escaped in the query of a URL. -/
def isEscapedInQueryOf (scheme : String) : Char → Bool :=
  if (SchemeKind.of scheme).isSpecial then isEscapedInSpecialQuery else isEscapedInQuery

theorem isEscapedInQuery_of {scheme : String} {c : Char} (h : isEscapedInQueryOf scheme c = false) :
    isEscapedInQuery c = false := by
  unfold isEscapedInQueryOf at h
  split at h
  · simp only [isEscapedInSpecialQuery, Bool.or_eq_false_iff] at h
    exact h.1
  · exact h

theorem isAlwaysEscaped_of_isEscapedInQueryOf {scheme : String} {c : Char}
    (h : isEscapedInQueryOf scheme c = false) : isAlwaysEscaped c = false := by
  have hquery := isEscapedInQuery_of h
  simp only [isEscapedInQuery, Bool.or_eq_false_iff] at hquery
  exact hquery.1

/-- What is read behind a mark is escaped. -/
theorem escaped_of_parse? {text : String} {u : Url} (h : parse? text = some u) :
    (∀ text ∈ u.query, ∀ c ∈ text.toList, isEscapedInQueryOf u.scheme c = false) ∧
      ∀ text ∈ u.fragment, ∀ c ∈ text.toList, isEscapedInFragment c = false := by
  obtain ⟨-, fragment, -, query, -, -, -, -, -, hquery, hfragment⟩ := of_parse? h
  have hspares : SparesEscapes (isEscapedInQueryOf u.scheme) := by
    unfold isEscapedInQueryOf
    split <;> exact ⟨rfl, by decide⟩
  constructor
  · intro text htext
    rw [hquery] at htext
    obtain ⟨s, -, rfl⟩ := Option.map_eq_some_iff.1 htext
    rw [String.toList_ofList]
    exact forall_mem_escape hspares fun _ _ hc => hc
  · intro text htext
    rw [hfragment] at htext
    obtain ⟨s, -, rfl⟩ := Option.map_eq_some_iff.1 htext
    rw [String.toList_ofList]
    exact forall_mem_escape ⟨rfl, by decide⟩ fun _ _ hc => hc

/-- What follows the authority of a special URL, as it is written. -/
structure IsTail (u : Url) : Prop where
  path : IsPath u.path
  query : ∀ text ∈ u.query, ∀ c ∈ text.toList, isEscapedInSpecialQuery c = false
  fragment : ∀ text ∈ u.fragment, ∀ c ∈ text.toList, isEscapedInFragment c = false

theorem of_readBody? {scheme : String} {last : Bool} {s : List Char}
    {authority : Option Authority} {path : UrlPath} (hspecial : SchemeKind.of scheme = .special)
    (h : readBody? scheme last s = some (authority, path)) : ∃ a, authority = some a ∧
      readAuthority? .special scheme last ((solid s).dropWhile SchemeKind.special.isSlash) =
        some (a, path) := by
  rw [readBody?, hspecial] at h
  obtain ⟨⟨a, rest⟩, hread, heq⟩ := Option.map_eq_some_iff.1 h
  cases heq
  exact ⟨a, rfl, hread⟩

theorem isTail_of_parse? {text : String} {u : Url} (h : parse? text = some u)
    (hspecial : SchemeKind.of u.scheme = .special) : IsTail u := by
  obtain ⟨-, fragment, -, query, body, -, -, -, hbody, -, -⟩ := of_parse? h
  obtain ⟨a, -, hread⟩ := of_readBody? hspecial hbody
  obtain ⟨-, rest, -, -, -, -, -, -, hpath⟩ := of_readAuthority? hread
  obtain ⟨hquery, hfragment⟩ := escaped_of_parse? h
  rw [isEscapedInQueryOf, hspecial] at hquery
  exact ⟨hpath ▸ isPath_pathAfterAuthority rest, hquery, hfragment⟩

theorem not_mem_of_escaped {escaped : Char → Bool} {s : List Char}
    (h : ∀ c ∈ s, escaped c = false) {d : Char} (hd : escaped d) : d ∉ s := by
  intro hmem
  simp [h d hmem] at hd

/-- Query and fragment are cut off where they were written. -/
theorem cutAt_parts {main : List Char} (hhash : '#' ∉ main) (hmark : '?' ∉ main)
    {query : Option String} (hquery : ∀ text ∈ query, '#' ∉ text.toList)
    (fragment : Option String) :
    cutAt '#' (main ++ (marked "?" query).toList ++ (marked "#" fragment).toList) =
        (main ++ (marked "?" query).toList, fragment.map String.toList) ∧
      cutAt '?' (main ++ (marked "?" query).toList) = (main, query.map String.toList) := by
  refine ⟨cutAt_marked ?_ fragment, cutAt_marked hmark query⟩
  rw [List.mem_append, not_or]
  refine ⟨hhash, ?_⟩
  cases query with
  | none => simp [marked]
  | some text => simpa [marked] using hquery text rfl

/-- A text without blanks and without anything that is always escaped. -/
def IsVisible (s : List Char) : Prop := ∀ c ∈ s, isAlwaysEscaped c = false ∧ c ≠ ' '

theorem IsVisible.append {s t : List Char} (hs : IsVisible s) (ht : IsVisible t) :
    IsVisible (s ++ t) := by
  intro c hc
  exact (List.mem_append.1 hc).elim (hs c) (ht c)

theorem isVisible_marked {mark : String} (hmark : IsVisible mark.toList) {part : Option String}
    (h : ∀ text ∈ part, IsVisible text.toList) : IsVisible (marked mark part).toList := by
  cases part with
  | none => simp [marked, IsVisible]
  | some text =>
      rw [marked, String.toList_append]
      exact hmark.append (h text rfl)

theorem IsVisible.withoutOuter_eq_self {s : List Char} (h : IsVisible s) : withoutOuter s = s :=
  Url.withoutOuter_eq_self (fun c hc => (h c hc).1) fun hblank => (h ' ' hblank).2 rfl

theorem isVisible_of_escaped {escaped : Char → Bool}
    (halways : ∀ c, escaped c = false → isAlwaysEscaped c = false) (hblank : escaped ' ')
    {s : List Char} (h : ∀ c ∈ s, escaped c = false) : IsVisible s :=
  fun c hc => ⟨halways c (h c hc), fun heq => not_mem_of_escaped h hblank (heq ▸ hc)⟩

/-- A part behind a mark is read as it was written. -/
theorem escape_part {escaped : Char → Bool}
    (halways : ∀ c, escaped c = false → isAlwaysEscaped c = false) {part : Option String}
    (h : ∀ text ∈ part, ∀ c ∈ text.toList, escaped c = false) :
    (part.map String.toList).map (fun s => String.ofList (escape escaped (solid s))) = part := by
  cases part with
  | none => rfl
  | some text =>
      have hwritten := h text rfl
      have hprintable : IsPrintable text.toList := fun c hc => halways c (hwritten c hc)
      simp [hprintable.solid_eq_self, escape_eq_self hwritten]

namespace IsTail

variable {u : Url}

theorem isVisible_path (h : IsTail u) : IsVisible u.path.text.toList :=
  isVisible_of_escaped (fun _ => isAlwaysEscaped_of_isEscapedInPath) rfl h.path.written

theorem isVisible_query (h : IsTail u) : ∀ text ∈ u.query, IsVisible text.toList :=
  fun text htext => isVisible_of_escaped
    (by simp +contextual [isEscapedInSpecialQuery, isEscapedInQuery]) rfl (h.query text htext)

theorem isVisible_fragment (h : IsTail u) : ∀ text ∈ u.fragment, IsVisible text.toList :=
  fun text htext => isVisible_of_escaped (by simp +contextual [isEscapedInFragment]) rfl
    (h.fragment text htext)

/-- Query and fragment may stand behind any text without blanks. -/
theorem isVisible_append (h : IsTail u) {s : List Char} (hs : IsVisible s) :
    IsVisible (s ++ (marked "?" u.query).toList ++ (marked "#" u.fragment).toList) := by
  have hquestion : IsVisible "?".toList := by
    simp [IsVisible]
    decide
  have hhash : IsVisible "#".toList := by
    simp [IsVisible]
    decide
  exact (hs.append (isVisible_marked hquestion h.isVisible_query)).append
    (isVisible_marked hhash h.isVisible_fragment)

theorem hash_not_mem_query (h : IsTail u) : ∀ text ∈ u.query, '#' ∉ text.toList :=
  fun text htext => not_mem_of_escaped (h.query text htext) rfl

/-- Query and fragment are read as they were written. -/
theorem escape_query (h : IsTail u) : (u.query.map String.toList).map
    (fun s => String.ofList (escape isEscapedInSpecialQuery (solid s))) = u.query :=
  escape_part (by simp +contextual [isEscapedInSpecialQuery, isEscapedInQuery]) h.query

theorem escape_fragment (h : IsTail u) : (u.fragment.map String.toList).map
    (fun s => String.ofList (escape isEscapedInFragment (solid s))) = u.fragment :=
  escape_part (by simp +contextual [isEscapedInFragment]) h.fragment

end IsTail

end TraceExport.Url
