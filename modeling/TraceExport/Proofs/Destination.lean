import TraceExport.Proofs.Continuation
import TraceExport.Proofs.Reference
import TraceExport.Proofs.Target
import TraceExport.Proofs.Value

/-!
Where a step with variables in its text goes. A target is emitted as a binding, as a template, or as
a path that is followed from an address. The first two have the target for their value, with the
values of the variables in it. The third is another computation, since the path is read as a
reference; it comes to the same URL where the path goes on from the end of the address
(`Url.Continues`).
-/

namespace TraceExport.Replay

open Script Spec Text

/-- A text with the values of its variables in place of their placeholders. -/
def filled (values : String → String) (raw : List Char) : String :=
  String.ofList (Placeholder.replace (fun name => (values (String.ofList name)).toList) raw)

variable {values bindings : String → String} {raw : List Char}

theorem rendered_eq_filled (hbind : ∀ var ∈ Placeholder.vars (String.ofList raw),
    bindings (variableName var) = values var) :
    String.ofList (rendered bindings raw) = filled values raw := by
  refine congrArg String.ofList (List.flatMap_congr fun piece hpiece => ?_)
  cases piece with
  | plain text => rfl
  | placeholder name =>
      have hname : String.ofList name ∈ Placeholder.vars (String.ofList raw) := by
        rw [Placeholder.vars, List.mem_eraseDups, String.toList_ofList]
        exact List.mem_filterMap.2 ⟨_, hpiece, rfl⟩
      exact congrArg String.toList (hbind _ hname)

/-- A template stands for its text, if no line breaks are in it. -/
theorem evaluate?_template_pieces (hraw : Placeholder.IsCompact (Placeholder.pieces raw)) :
    evaluate? bindings (Expr.template (Placeholder.pieces raw)).text =
      some (String.ofList (rendered bindings raw)) := by
  have hreturn : ∀ text, Placeholder.Piece.plain text ∈ Placeholder.pieces raw → '\r' ∉ text := by
    intro text htext hmem
    exact absurd (hraw text htext _ hmem) (by decide)
  rw [evaluate?_template (Placeholder.alternates_pieces raw) fun v hv =>
    Placeholder.isName_of_mem_occurrences hv, flatMap_pieceValue hreturn]

theorem evaluate?_ofTemplate? (hraw : Placeholder.IsCompact (Placeholder.pieces raw)) {e : Expr}
    (h : Expr.ofTemplate? (String.ofList raw) = some e) :
    evaluate? bindings e.text = some (String.ofList (rendered bindings raw)) := by
  unfold Expr.ofTemplate? at h
  rw [String.toList_ofList] at h
  split at h
  · rename_i name hsole
    cases h
    have hname : Placeholder.isName (String.ofList name) :=
      Placeholder.isName_iff.2 (by simpa using Placeholder.isVariable_of_sole? hsole)
    have hvalue := Placeholder.replace_of_inked hraw (Placeholder.sole?_eq_some.1 hsole)
      fun name => (bindings (variableName (String.ofList name))).toList
    rw [rendered, hvalue, String.ofList_toList]
    exact evaluate?_word (isBindable_variableName hname)
  · split at h
    · cases h
    · cases h
      exact evaluate?_template_pieces hraw

/-! ### Paths on an address -/

theorem of_afterVariable? {var : String} (hvar : Placeholder.isName var) {s rest : List Char}
    (h : Placeholder.afterVariable? var s = some rest) :
    ∃ braced, Placeholder.IsBraced braced var.toList ∧ trimStart s = braced ++ rest := by
  unfold Placeholder.afterVariable? at h
  simp only [Option.bind_eq_bind, Option.bind_eq_some_iff] at h
  obtain ⟨inside, hopen, after, hname, hclose⟩ := h
  have hblanks : ∀ t : List Char, ∀ c ∈ t.takeWhile isBlank, isBlank c := fun t =>
    List.all_eq_true.1 List.all_takeWhile
  refine ⟨_, ⟨Placeholder.isName_iff.1 hvar, inside.takeWhile isBlank, after.takeWhile isBlank,
    hblanks _, hblanks _, rfl⟩, ?_⟩
  have hfront := dropPrefix?_eq_some.1 hname
  have hback := dropPrefix?_eq_some.1 hclose
  rw [dropPrefix?_eq_some.1 hopen]
  simp only [List.append_assoc, ← hback, trimStart, List.takeWhile_append_dropWhile]
  rw [← hfront]
  simp only [trimStart, List.takeWhile_append_dropWhile]

theorem occurrences_of_vars {text : String} (h : Placeholder.vars text = []) :
    Placeholder.occurrences text.toList = [] := by
  refine List.eq_nil_iff_forall_not_mem.2 fun v hv => ?_
  rw [← List.mem_eraseDups, ← Placeholder.vars, h] at hv
  exact List.not_mem_nil hv

/-- What a target that is a path on an address is made of. -/
theorem of_pathOnAddress? (hraw : Placeholder.IsCompact (Placeholder.pieces raw))
    {path var : String} (h : pathOnAddress? raw = some (path, var)) :
    Placeholder.pieces raw = .placeholder var.toList :: Placeholder.pieces path.toList ∧
      Placeholder.occurrences path.toList = [] := by
  have hvar := isName_of_pathOnAddress? h
  obtain ⟨address, -, hpath⟩ := List.exists_of_findSome?_eq_some h
  split at hpath
  · rename_i hafter
    obtain ⟨rest, hrest, rfl⟩ := Option.map_eq_some_iff.1 hafter
    split at hpath
    · rename_i hfree
      obtain ⟨rfl, rfl⟩ := Prod.mk.inj (Option.some.inj hpath)
      obtain ⟨braced, hbraced, hsplit⟩ := of_afterVariable? hvar hrest
      rw [Placeholder.trimStart_of_isCompact hraw] at hsplit
      have hpieces := Placeholder.pieces_of_read? (Placeholder.read?_append hbraced rest)
      rw [← hsplit] at hpieces
      rw [hpieces] at hraw
      have htrim := Placeholder.trim_of_isCompact (Placeholder.isCompact_cons.1 hraw)
      rw [htrim] at hfree ⊢
      rw [Bool.and_eq_true, List.isEmpty_iff] at hfree
      exact ⟨by rw [hpieces, String.toList_ofList], occurrences_of_vars hfree.2⟩
    · simp at hpath
  · simp at hpath

theorem filled_of_pathOnAddress? (values : String → String)
    (hraw : Placeholder.IsCompact (Placeholder.pieces raw)) {path var : String} (h : pathOnAddress? raw = some (path, var)) :
    filled values raw = values var ++ path ∧ ∀ c ∈ path.toList, isVisible c := by
  obtain ⟨hpieces, hfree⟩ := of_pathOnAddress? hraw h
  have hplain := Placeholder.replace_of_occurrences hfree fun name =>
    (values (String.ofList name)).toList
  rw [hpieces, Placeholder.isCompact_cons] at hraw
  refine ⟨?_, Placeholder.isVisible_of_occurrences hfree hraw⟩
  rw [Placeholder.replace] at hplain
  rw [filled, Placeholder.replace, hpieces, List.flatMap_cons, hplain]
  simp

/-! ### Destinations -/

theorem solid_of_isVisible {s : List Char} (h : ∀ c ∈ s, isVisible c) : Url.solid s = s := by
  refine List.filter_eq_self.2 fun c hc => ?_
  rw [Bool.not_eq_true', Bool.eq_false_iff]
  intro hbreak
  obtain (rfl | rfl) | rfl := by simpa [Url.isTabOrBreak] using hbreak
  all_goals exact absurd (h _ hc) (by decide)

theorem targetOfText_of_vars (ctx : Context) (hpath : pathOnAddress? raw = none)
    (hvars : Placeholder.vars (String.ofList raw) ≠ []) :
    ∃ e, Expr.ofTemplate? (String.ofList raw) = some e ∧ targetOfText ctx raw = e := by
  obtain ⟨e, he⟩ := Option.isSome_iff_exists.1 (Expr.ofTemplate?_isSome hvars)
  exact ⟨e, he, by simp [targetOfText, hpath, he]⟩

/-- The value of an expression is an address of a URL. -/
def Opens (bindings : String → String) (e : Expr) (u : Url) : Prop :=
  ∃ address, evaluate? bindings e.text = some address ∧ Url.parse? address = some u

/-- A step with variables in its target opens the URL that the target is with the values in it,
but for a path on an address: this is followed from the value, and opens the same URL where the
value ends as the path goes on. -/
theorem targetOfText_opens (ctx : Context) (htarget : IsTarget raw)
    (hvars : Placeholder.vars (String.ofList raw) ≠ [])
    (hbind : ∀ var ∈ Placeholder.vars (String.ofList raw),
      bindings (variableName var) = values var)
    {u : Url} (hu : Url.parse? (filled values raw) = some u) :
    Opens bindings (.template (Placeholder.pieces raw)) u ∧
      (pathOnAddress? raw = none → Opens bindings (targetOfText ctx raw) u) ∧
      ∀ path var, pathOnAddress? raw = some (path, var) →
        evaluate? bindings (targetOfText ctx raw).text = Url.resolvedText? path (values var) ∧
          (Url.Continues (values var) path → Opens bindings (targetOfText ctx raw) u) := by
  have hraw := isCompact_of_isTarget htarget
  have hfilled := rendered_eq_filled hbind
  refine ⟨⟨_, (evaluate?_template_pieces hraw).trans (congrArg some hfilled), hu⟩,
    fun hnone => ?_, fun path var hpath => ?_⟩
  · obtain ⟨e, he, htext⟩ := targetOfText_of_vars ctx hnone hvars
    rw [htext]
    exact ⟨_, (evaluate?_ofTemplate? hraw he).trans (congrArg some hfilled), hu⟩
  · obtain ⟨hpieces, -⟩ := of_pathOnAddress? hraw hpath
    have hvar : var ∈ Placeholder.vars (String.ofList raw) := by
      rw [Placeholder.vars, Placeholder.occurrences, String.toList_ofList, hpieces]
      simp [Placeholder.Piece.name?]
    have hvalue : evaluate? bindings (targetOfText ctx raw).text =
        Url.resolvedText? path (values var) := by
      rw [← hbind var hvar, ← evaluate?_onAddress (isName_of_pathOnAddress? hpath), targetOfText,
        hpath]
    refine ⟨hvalue, fun hcontinues => ?_⟩
    obtain ⟨hwhole, hvisible⟩ := filled_of_pathOnAddress? values hraw hpath
    have hsolid := solid_of_isVisible hvisible
    obtain ⟨u', address, hparse, hresolved, haddress⟩ :=
      Url.resolvedText?_of_continues hcontinues hsolid
    rw [hwhole, hparse] at hu
    obtain rfl := Option.some.inj hu
    exact ⟨address, hvalue.trans hresolved, haddress⟩

theorem targetOfText_opens_login : ∃ u,
    Url.parse? "https://example.com:8443/login?next=/home" = some u ∧
      Opens (fun _ => "https://example.com:8443") (targetOfText ⟨"", none, none⟩
        "\x7b\x7bBASE_URL\x7d\x7d/login?next=/home".toList) u := by
  have htarget : IsTarget "\x7b\x7bBASE_URL\x7d\x7d/login?next=/home".toList :=
    ⟨"Navigate to \x7b\x7bBASE_URL\x7d\x7d/login?next=/home".toList, .inl (by decide +kernel)⟩
  have hfilled : filled (fun _ => "https://example.com:8443")
      "\x7b\x7bBASE_URL\x7d\x7d/login?next=/home".toList =
        "https://example.com:8443/login?next=/home" := by decide +kernel
  have hbase : (Url.parse? "https://example.com:8443").map
      (fun b => Url.SchemeKind.of b.scheme) = some .special := by decide +kernel
  have hfirst : ∀ d ∈ "login?next=/home".toList.head?,
      Url.SchemeKind.special.isSlash d = false := by
    rintro d ⟨⟩
    rfl
  have hcontinues : Url.Continues "https://example.com:8443" "/login?next=/home" := {
    special := Option.map_eq_some_iff.1 hbase
    last := ⟨'3', by decide +kernel, rfl⟩
    meets := .root (by decide) (by decide) (by decide +kernel) rfl hfirst }
  obtain ⟨u, hu⟩ := Option.isSome_iff_exists.1 (by decide +kernel :
    (Url.parse? "https://example.com:8443/login?next=/home").isSome)
  exact ⟨u, hu, ((targetOfText_opens ⟨"", none, none⟩ htarget (by decide +kernel)
    (fun _ _ => rfl) (hfilled ▸ hu)).2.2 "/login?next=/home" "BASE_URL" (by decide +kernel)).2
      hcontinues⟩

/-- A path from the root leaves the folder of its address, where the template stays in it. -/
theorem targetOfText_leaves_folder :
    IsTarget "\x7b\x7bBASE_URL\x7d\x7d/login".toList ∧
      Placeholder.vars "\x7b\x7bBASE_URL\x7d\x7d/login" = ["BASE_URL"] ∧
      filled (fun _ => "https://example.com/app") "\x7b\x7bBASE_URL\x7d\x7d/login".toList =
        "https://example.com/app/login" ∧
      evaluate? (fun _ => "https://example.com/app") (Expr.template (Placeholder.pieces
        "\x7b\x7bBASE_URL\x7d\x7d/login".toList)).text = some "https://example.com/app/login" ∧
      evaluate? (fun _ => "https://example.com/app") (targetOfText ⟨"", none, none⟩
        "\x7b\x7bBASE_URL\x7d\x7d/login".toList).text = some "https://example.com/login" ∧
      ∃ u, Url.parse? "https://example.com/app/login" = some u ∧
        Url.parse? "https://example.com/login" ≠ some u := by
  refine ⟨⟨"Navigate to \x7b\x7bBASE_URL\x7d\x7d/login".toList, .inl (by decide +kernel)⟩,
    by decide +kernel, by decide +kernel, by decide +kernel, by decide +kernel, ?_⟩
  obtain ⟨u, hu⟩ := Option.isSome_iff_exists.1 (by decide +kernel :
    (Url.parse? "https://example.com/app/login").isSome)
  have hother : Url.parse? "https://example.com/app/login" ≠
      Url.parse? "https://example.com/login" := by decide +kernel
  exact ⟨u, hu, fun h => hother (hu.trans h.symm)⟩

end TraceExport.Replay
