import TraceExport.Proofs.Written

/-!
URLs as they are printed. A scheme ends at the colon behind it, and a query and a fragment start at
their marks, so of the text of a URL only what stands behind the scheme has to be looked at: the
text is read as this URL if this part of it is (`IsWritten.parse?_text_iff`).
-/

namespace TraceExport.Url

open Text

/-- A mark of a query or a fragment, or a character that no URL has. -/
def isBehindPath (c : Char) : Bool := isAlwaysEscaped c || " ?#".toList.contains c

theorem isBehindPath_of_isEscapedInPath {c : Char} (h : isEscapedInPath c = false) :
    isBehindPath c = false := by
  simp only [isEscapedInPath, isEscapedInFragment, Bool.or_eq_false_iff] at h
  simp_all [isBehindPath]

theorem isOuter_of_isBehindPath {c : Char} (h : isBehindPath c = false) : isOuter c = false := by
  simp only [isBehindPath, Bool.or_eq_false_iff] at h
  refine isOuter_of_isAlwaysEscaped h.1 ?_
  rintro rfl
  simp at h

theorem isPrintable_of_isBehindPath {s : List Char} (h : ∀ c ∈ s, isBehindPath c = false) :
    IsPrintable s := by
  intro c hc
  have hbehind := h c hc
  simp only [isBehindPath, Bool.or_eq_false_iff] at hbehind
  exact hbehind.1

/-! ### Schemes -/

/-- A scheme, as it is kept. -/
structure IsScheme (s : List Char) : Prop where
  opens : ∃ c ∈ s.head?, c.isAlpha
  named : ∀ c ∈ s, isSchemeChar c
  low : s.map Char.toLower = s

theorem of_isSchemeChar {c : Char} (h : isSchemeChar c) :
    isSchemeChar c.toLower ∧ isBehindPath c = false ∧ c ≠ ':' := by
  have hlt : c.toNat < 128 := by
    simp only [isSchemeChar, Bool.or_eq_true, isAlphanum_iff, beq_iff_eq] at h
    rcases h with ((halphanum | rfl) | rfl) | rfl
    · omega
    all_goals decide
  exact of_forall_ofNat (P := fun c => isSchemeChar c →
    isSchemeChar c.toLower ∧ isBehindPath c = false ∧ c ≠ ':') (by decide) hlt h

theorem isAlpha_toLower {c : Char} (h : c.isAlpha) : c.toLower.isAlpha := by
  have hlower := toNat_toLower c
  rw [isAlpha_iff] at h ⊢
  split at hlower <;> omega

theorem toLower_toLower (c : Char) : c.toLower.toLower = c.toLower := by
  have hnot := toLower_not_upper c
  rw [eq_iff_toNat, toNat_toLower, if_neg hnot]

theorem isScheme_of_readScheme? {main body : List Char} {scheme : String}
    (h : readScheme? main = some (scheme, body)) : IsScheme scheme.toList := by
  unfold readScheme? at h
  split at h
  · rename_i name rest hcut
    simp only at h
    split at h
    · rename_i hname
      cases h
      rw [Bool.and_eq_true, List.all_eq_true] at hname
      refine ⟨?_, ?_, ?_⟩
      · cases hhead : (solid name).head? with
        | none => simp [hhead] at hname
        | some c =>
            have halpha : c.isAlpha := by simpa [hhead] using hname.1
            exact ⟨c.toLower, by simp [hhead], isAlpha_toLower halpha⟩
      · rw [String.toList_ofList]
        exact List.forall_mem_map.2 fun c hc => (of_isSchemeChar (hname.2 c hc)).1
      · rw [String.toList_ofList, List.map_map]
        exact List.map_congr_left fun c _ => toLower_toLower c
    · cases h
  · cases h

namespace IsScheme

variable {scheme : String}

theorem isBehindPath (h : IsScheme scheme.toList) :
    ∀ c ∈ scheme.toList, isBehindPath c = false :=
  fun c hc => (of_isSchemeChar (h.named c hc)).2.1

/-- A scheme is read as it was written. -/
theorem readScheme? (h : IsScheme scheme.toList) (s : List Char) :
    readScheme? (scheme.toList ++ ':' :: s) = some (scheme, s) := by
  have hcolon : ':' ∉ scheme.toList := fun hmem => (of_isSchemeChar (h.named _ hmem)).2.2 rfl
  have hprintable := isPrintable_of_isBehindPath h.isBehindPath
  obtain ⟨c, hc, halpha⟩ := h.opens
  have hname : ((scheme.toList.head?.map Char.isAlpha).getD false &&
      scheme.toList.all isSchemeChar) = true := by
    rw [Option.mem_def.1 hc]
    simpa [halpha] using h.named
  rw [Url.readScheme?, cutAt_mark hcolon]
  simp only [hprintable.solid_eq_self, hname, h.low, String.ofList_toList, if_true]

end IsScheme

/-! ### Ends -/

theorem withoutOuter_of_ends {s : List Char} (hfirst : ∃ c ∈ s.head?, isOuter c = false)
    (hlast : ∃ c ∈ s.getLast?, isOuter c = false) : withoutOuter s = s := by
  obtain ⟨c, hc, hc'⟩ := hfirst
  obtain ⟨d, hd, hd'⟩ := hlast
  obtain ⟨front, rfl⟩ := List.getLast?_eq_some_iff.1 hd
  obtain ⟨rest, hrest⟩ := List.head?_eq_some_iff.1 hc
  rw [withoutOuter_of_last hd', hrest, List.dropWhile_cons_of_neg (by simp [hc'])]

theorem getLast?_not_outer {t : List Char} (hne : t ≠ []) (ht : ∀ c ∈ t, isOuter c = false)
    (s : List Char) : ∃ c ∈ (s ++ t).getLast?, isOuter c = false := by
  refine ⟨t.getLast hne, ?_, ht _ (List.getLast_mem hne)⟩
  rw [Option.mem_def, List.getLast?_append, List.getLast?_eq_some_getLast hne]
  rfl

theorem isOuter_of_escaped {escaped : Char → Bool}
    (halways : ∀ c, escaped c = false → isAlwaysEscaped c = false) (hblank : escaped ' ')
    {s : List Char} (h : ∀ c ∈ s, escaped c = false) : ∀ c ∈ s, isOuter c = false := by
  intro c hc
  obtain ⟨hprintable, hne⟩ := isVisible_of_escaped halways hblank h c hc
  exact isOuter_of_isAlwaysEscaped hprintable hne

/-! ### Whole URLs -/

/-- What stands between the scheme of a URL and its query. -/
def body (u : Url) : List Char := u.beforePath.toList ++ u.path.text.toList

theorem body_of_authority {u : Url} {a : Authority} (ha : u.authority = some a) :
    u.body = '/' :: '/' :: (a.text.toList ++ u.path.text.toList) := by
  simp [body, beforePath, ha]

theorem toList_text (u : Url) : u.text.toList = u.scheme.toList ++ ':' :: u.body ++
    (marked "?" u.query).toList ++ (marked "#" u.fragment).toList := by
  simp [text, body]

/-- A URL, whose parts are cut where they were put together. -/
structure IsWritten (u : Url) : Prop where
  scheme : IsScheme u.scheme.toList
  whole : '#' ∉ u.body ∧ '?' ∉ u.body
  ends : u.query = none → u.fragment = none → ∃ c ∈ (':' :: u.body).getLast?, isOuter c = false
  query : ∀ text ∈ u.query, ∀ c ∈ text.toList, isEscapedInQueryOf u.scheme c = false
  fragment : ∀ text ∈ u.fragment, ∀ c ∈ text.toList, isEscapedInFragment c = false

namespace IsWritten

variable {u : Url}

theorem of_visible (scheme : IsScheme u.scheme.toList)
    (hbody : ∀ c ∈ u.body, isBehindPath c = false)
    (query : ∀ text ∈ u.query, ∀ c ∈ text.toList, isEscapedInQueryOf u.scheme c = false)
    (fragment : ∀ text ∈ u.fragment, ∀ c ∈ text.toList, isEscapedInFragment c = false) :
    u.IsWritten where
  scheme := scheme
  whole := ⟨not_mem_of_escaped hbody rfl, not_mem_of_escaped hbody rfl⟩
  ends _ _ := getLast?_not_outer (List.cons_ne_nil _ _)
    (List.forall_mem_cons.2 ⟨rfl, fun c hc => isOuter_of_isBehindPath (hbody c hc)⟩) []
  query := query
  fragment := fragment

theorem ends_text (h : u.IsWritten) : ∃ c ∈ u.text.toList.getLast?, isOuter c = false := by
  rw [toList_text]
  cases hfragment : u.fragment with
  | some text =>
      rw [marked, String.toList_append]
      refine getLast?_not_outer (by simp) (List.forall_mem_cons.2 ⟨rfl, ?_⟩) _
      exact isOuter_of_escaped (by simp +contextual [isEscapedInFragment]) rfl
        (h.fragment text hfragment)
  | none =>
      rw [marked, String.toList_empty, List.append_nil]
      cases hquery : u.query with
      | some text =>
          rw [marked, String.toList_append]
          refine getLast?_not_outer (by simp) (List.forall_mem_cons.2 ⟨rfl, ?_⟩) _
          exact isOuter_of_escaped (by simp +contextual [isEscapedInQuery]) rfl
            fun c hc => isEscapedInQuery_of (h.query text hquery c hc)
      | none =>
          obtain ⟨c, hc, hlast⟩ := h.ends hquery hfragment
          refine ⟨c, ?_, hlast⟩
          rw [marked, String.toList_empty, List.append_nil, Option.mem_def, List.getLast?_append,
            Option.mem_def.1 hc]
          rfl

theorem withoutOuter_text (h : u.IsWritten) : withoutOuter u.text.toList = u.text.toList := by
  obtain ⟨c, hc, -⟩ := h.scheme.opens
  refine withoutOuter_of_ends ⟨c, ?_, ?_⟩ h.ends_text
  · rw [toList_text, List.append_assoc, List.append_assoc, Option.mem_def, List.head?_append,
      Option.mem_def.1 hc]
    rfl
  · exact isOuter_of_isBehindPath (h.scheme.isBehindPath c (List.mem_of_head? hc))

/-- The text of a URL is read as this URL if what stands behind its scheme is. -/
theorem parse?_text_iff (h : u.IsWritten) : parse? u.text = some u ↔
    readBody? u.scheme (u.query.isNone && u.fragment.isNone) u.body =
      some (u.authority, u.path) := by
  -- Cut at its marks, the text falls into the parts that it was made of.
  have hscheme := h.scheme.isBehindPath
  have hmain : ∀ d, d ≠ ':' → isBehindPath d → d ∉ u.body →
      d ∉ u.scheme.toList ++ ':' :: u.body := by
    intro d hcolon hd hbody hmem
    rcases List.mem_append.1 hmem with hmem | hmem
    · exact not_mem_of_escaped hscheme hd hmem
    · exact (List.mem_cons.1 hmem).elim hcolon hbody
  have hhash : ∀ text ∈ u.query, '#' ∉ text.toList := fun text htext =>
    not_mem_of_escaped (fun c hc => isEscapedInQuery_of (h.query text htext c hc)) rfl
  obtain ⟨hfragment, hquery⟩ := cutAt_parts (hmain '#' (by decide) rfl h.whole.1)
    (hmain '?' (by decide) rfl h.whole.2) hhash u.fragment
  have hsameQuery : (u.query.map String.toList).map (fun s => String.ofList
      (escape (isEscapedInQueryOf u.scheme) (solid s))) = u.query :=
    escape_part (fun c hc => isAlwaysEscaped_of_isEscapedInQueryOf hc) h.query
  have hsameFragment := escape_part (by simp +contextual [isEscapedInFragment]) h.fragment
  rw [isEscapedInQueryOf] at hsameQuery
  rw [parse?, h.withoutOuter_text, toList_text, hfragment]
  simp only [hquery, h.scheme.readScheme?, hsameQuery, hsameFragment, Option.bind_eq_bind,
    Option.bind_some, Option.isNone_map]
  constructor
  · intro hparse
    obtain ⟨⟨authority, path⟩, hread, hsame⟩ := Option.bind_eq_some_iff.1 hparse
    have hparts := Option.some.inj hsame
    rw [hread, ← congrArg Url.authority hparts, ← congrArg Url.path hparts]
  · intro hread
    rw [hread]
    rfl

end IsWritten

end TraceExport.Url
