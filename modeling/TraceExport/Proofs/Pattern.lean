import TraceExport.Proofs.Target

/-!
Placeholders as patterns. A placeholder, a text that is nothing else, and an address with a
placeholder in it are written here as phrases. Several branches of such a phrase begin alike and its
runs could stop at many places, but at most one way to read it matters: past a run nothing can be
read that starts with a character of the run. So each reader finds what its pattern finds first
(`readsPatterns`).
-/

namespace TraceExport.Text.Phrase

/-- The reading of a phrase at the first place of a text where it has one. -/
def search? (p : Phrase) : List Char → Option Reading
  | [] => (p.readings []).head?
  | c :: s =>
    match p.readings (c :: s) with
    | r :: _ => some r
    | [] => search? p s

theorem search?_cons (p : Phrase) (c : Char) (s : List Char) :
    p.search? (c :: s) = ((p.readings (c :: s)).head?).or (p.search? s) := by
  rw [search?]
  cases p.readings (c :: s) <;> rfl

theorem find?_eq_search? (p : Phrase) (s : List Char) :
    p.find? s = (p.search? s).bind (·.kept) := by
  fun_induction search? p s with
  | case1 => rfl
  | case2 c s r more hread => simp [find?, hread]
  | case3 c s hread ih => simp [find?, hread, ih]

/-! ### Readings of a sequence -/

theorem readings_exact (word s : List Char) :
    (exact word).readings s = (dropPrefix? word s).toList.map (⟨none, ·⟩) := by
  rw [readings]
  cases hdrop : dropPrefix? word s with
  | some rest =>
      obtain rfl := dropPrefix?_eq_some.1 hdrop
      simp
  | none =>
      have hnot : ¬ word <+: s := by
        rintro ⟨rest, rfl⟩
        simp at hdrop
      simp [hnot]

theorem all_cons_cons (p q : Phrase) (ps : List Phrase) :
    all (p :: q :: ps) = p.followedBy (all (q :: ps)) := rfl

theorem readings_exact_followedBy (word : List Char) (q : Phrase) (s : List Char) :
    ((exact word).followedBy q).readings s = (dropPrefix? word s).toList.flatMap q.readings := by
  rw [readings, readings_exact]
  cases dropPrefix? word s <;> simp

theorem drop_length_takeWhile (p : Char → Bool) (s : List Char) :
    s.drop (s.takeWhile p).length = s.dropWhile p := by
  have hdrop : (s.takeWhile p ++ s.dropWhile p).drop (s.takeWhile p).length = s.dropWhile p :=
    List.drop_left
  rwa [List.takeWhile_append_dropWhile] at hdrop

/-- What can only be read past a run is read after the longest one. -/
theorem flatMap_runRests {β : Type} {p : Char → Bool} {f : List Char → List β}
    (hf : ∀ c s, p c → f (c :: s) = []) (s : List Char) (least : Nat) :
    (runRests s least (s.takeWhile p).length).flatMap f =
      if least ≤ (s.takeWhile p).length then f (s.dropWhile p) else [] := by
  -- a shorter run leaves a character of the class in front
  have hshorter : ∀ n < (s.takeWhile p).length, f (s.drop n) = [] := by
    intro n hn
    have hdrop : (s.takeWhile p ++ s.dropWhile p).drop n =
        (s.takeWhile p).drop n ++ s.dropWhile p := List.drop_append_of_le_length hn.le
    rw [List.takeWhile_append_dropWhile, List.drop_eq_getElem_cons hn, List.cons_append] at hdrop
    rw [hdrop]
    exact hf _ _ (List.all_eq_true.1 List.all_takeWhile _ (List.getElem_mem hn))
  have hothers : ((List.range (s.takeWhile p).length).filter (least ≤ ·)).reverse.flatMap
      (fun n => f (s.drop n)) = [] := by
    rw [List.flatMap_eq_nil_iff]
    intro n hn
    rw [List.mem_reverse, List.mem_filter, List.mem_range] at hn
    exact hshorter n hn.1
  rw [runRests, List.flatMap_map, List.range_succ, List.filter_append, List.reverse_append,
    List.flatMap_append, hothers, List.append_nil]
  split
  · rename_i hleast
    simp [hleast, drop_length_takeWhile]
  · rename_i hleast
    simp [hleast]

theorem readings_run_followedBy {p : Char → Bool} {q : Phrase}
    (hq : ∀ c s, p c → q.readings (c :: s) = []) (least : Nat) (s : List Char) :
    ((run p least).followedBy q).readings s =
      if least ≤ (s.takeWhile p).length then q.readings (s.dropWhile p) else [] := by
  rw [readings, readings, List.flatMap_map, flatMap_runRests]
  · simp
  · intro c s hc
    simp [hq c s hc]

theorem readings_maybeBlanks_followedBy {q : Phrase}
    (hq : ∀ c s, isBlank c → q.readings (c :: s) = []) (s : List Char) :
    (maybeBlanks.followedBy q).readings s = q.readings (trimStart s) := by
  rw [maybeBlanks, readings_run_followedBy hq, if_pos (Nat.zero_le _), trimStart]

theorem readings_captured_followedBy {p : Char → Bool} {q : Phrase}
    (hq : ∀ c s, p c → q.readings (c :: s) = []) (least : Nat) (s : List Char) :
    ((captured (run p least)).followedBy q).readings s =
      if least ≤ (s.takeWhile p).length then
        (q.readings (s.dropWhile p)).map fun r => ⟨r.kept.or (some (s.takeWhile p)), r.rest⟩
      else [] := by
  have hkept : s.take (s.length - (s.dropWhile p).length) = s.takeWhile p := by
    have htaken := Spec.take_length_sub (s.takeWhile p) (s.dropWhile p)
    rwa [List.takeWhile_append_dropWhile] at htaken
  rw [readings, readings, readings, List.map_map, List.flatMap_map]
  refine (flatMap_runRests ?_ s least).trans ?_
  · intro c s hc
    simp [hq c s hc]
  · simp only [Function.comp_apply, hkept]

/-! ### What a phrase leaves -/

/-- What follows a phrase at the start of a text, for every way to read it. -/
def rests (p : Phrase) (s : List Char) : List (List Char) := (p.readings s).map (·.rest)

theorem rests_exact (word s : List Char) : (exact word).rests s = (dropPrefix? word s).toList := by
  simp [rests, readings_exact, Function.comp_def]

theorem rests_run (p : Char → Bool) (least : Nat) (s : List Char) :
    (run p least).rests s = runRests s least (s.takeWhile p).length := by
  simp [rests, readings, Function.comp_def]

theorem flatMap_rests_run {p : Char → Bool} {f : List Char → List (List Char)}
    (hf : ∀ c s, p c → f (c :: s) = []) (s : List Char) :
    ((run p 0).rests s).flatMap f = f (s.dropWhile p) := by
  rw [rests_run, flatMap_runRests hf, if_pos (Nat.zero_le _)]

theorem rests_optional (p : Phrase) (s : List Char) : (optional p).rests s = p.rests s ++ [s] := by
  simp [rests, readings]

theorem rests_either (p q : Phrase) (s : List Char) :
    (either p q).rests s = p.rests s ++ q.rests s := by
  simp [rests, readings]

theorem rests_followedBy (p q : Phrase) (s : List Char) :
    (p.followedBy q).rests s = (p.rests s).flatMap q.rests := by
  simp only [rests, readings, List.map_flatMap, List.flatMap_map, List.map_map, Function.comp_def]

theorem rests_exact_followedBy (word : List Char) (q : Phrase) (s : List Char) :
    ((exact word).followedBy q).rests s = (dropPrefix? word s).toList.flatMap q.rests := by
  rw [rests_followedBy, rests_exact]

theorem readings_captured (p : Phrase) (s : List Char) :
    (captured p).readings s =
      (p.rests s).map fun rest => ⟨some (s.take (s.length - rest.length)), rest⟩ := by
  rw [readings, rests, List.map_map]
  rfl

theorem head?_runRests (p : Char → Bool) (s : List Char) :
    (runRests s 0 (s.takeWhile p).length).head? = some (s.dropWhile p) := by
  simp [runRests, List.range_succ, drop_length_takeWhile]

end TraceExport.Text.Phrase

namespace TraceExport.Spec

open Text Text.Phrase

namespace Placeholder

/-! ### Patterns of placeholders -/

/-- A placeholder, of which the name is kept. -/
def bracedName : Phrase :=
  all [exact opening, maybeBlanks, captured (run isNameChar 1), maybeBlanks, exact closing]

/-- A text that is a placeholder with nothing but blanks around it. -/
def soleName : Phrase := all [maybeBlanks, bracedName, maybeBlanks, atEnd]

theorem readings_closing_cons {c : Char} (hc : c ≠ '\x7d') (s : List Char) :
    (exact closing).readings (c :: s) = [] := by
  simp [readings_exact, dropPrefix?, closing, Ne.symm hc]

theorem readings_closing (s : List Char) :
    (all [maybeBlanks, exact closing]).readings s =
      (dropPrefix? closing (trimStart s)).toList.map (⟨none, ·⟩) := by
  rw [all_cons_cons, all, readings_maybeBlanks_followedBy, readings_exact]
  intro c s hc
  apply readings_closing_cons
  rintro rfl
  simp [isBlank] at hc

theorem readings_name (s : List Char) :
    (all [captured (run isNameChar 1), maybeBlanks, exact closing]).readings s =
      if (s.takeWhile isNameChar).isEmpty then []
      else (dropPrefix? closing (trimStart (s.dropWhile isNameChar))).toList.map
        (⟨some (s.takeWhile isNameChar), ·⟩) := by
  have hname : ∀ c s, isNameChar c → (all [maybeBlanks, exact closing]).readings (c :: s) = [] := by
    intro c s hc
    have htrim : trimStart (c :: s) = c :: s := by
      simp [trimStart, isBlank_of_isNameChar hc]
    have hne : c ≠ '\x7d' := by
      rintro rfl
      cases hc
    rw [readings_closing, htrim, ← readings_exact, readings_closing_cons hne]
  rw [all_cons_cons, readings_captured_followedBy hname, readings_closing]
  cases s.takeWhile isNameChar with
  | nil => rfl
  | cons c letters => simp

/-- A placeholder can be read in one way at most, and `read?` finds it. -/
theorem readings_bracedName (s : List Char) :
    bracedName.readings s = (read? s).toList.map fun found => ⟨some found.1, found.2⟩ := by
  have hblank : ∀ c s, isBlank c →
      (all [captured (run isNameChar 1), maybeBlanks, exact closing]).readings (c :: s) = [] := by
    intro c s hc
    have hletter : isNameChar c = false := by
      refine Bool.eq_false_iff.2 fun hname => ?_
      simp [isBlank_of_isNameChar hname] at hc
    simp [readings_name, hletter]
  rw [bracedName, all_cons_cons, readings_exact_followedBy, read?]
  cases dropPrefix? opening s with
  | none => rfl
  | some inside =>
      rw [Option.toList_some, List.flatMap_singleton, all_cons_cons,
        readings_maybeBlanks_followedBy hblank, readings_name]
      simp only
      split
      · rfl
      · cases dropPrefix? closing (trimStart ((trimStart inside).dropWhile isNameChar)) <;> rfl

/-- Readers that ask for a placeholder find none in front of another character. -/
theorem readings_bracedName_of_head {s : List Char} (h : s.head? ≠ some '\x7b') :
    bracedName.readings s = [] := by
  rw [readings_bracedName, read?_of_head h]
  rfl

theorem readings_blank_end (s : List Char) :
    (all [maybeBlanks, atEnd]).readings s = if s.all isBlank then [⟨none, []⟩] else [] := by
  have hblank : ∀ c s, isBlank c → atEnd.readings (c :: s) = [] := fun c s _ => rfl
  rw [all_cons_cons, all, readings_maybeBlanks_followedBy hblank, readings]
  cases htrim : trimStart s with
  | nil => rw [if_pos (List.all_eq_true.2 (List.dropWhile_eq_nil_iff.1 htrim)), List.isEmpty_nil,
      if_pos rfl]
  | cons c rest =>
      have hsome : ¬ s.all isBlank := by
        rw [List.all_eq_true, ← List.dropWhile_eq_nil_iff, ← trimStart, htrim]
        exact List.cons_ne_nil c rest
      rw [if_neg hsome, List.isEmpty_cons, if_neg Bool.false_ne_true]

theorem sole?_eq_kept? (s : List Char) : sole? s = soleName.kept? s := by
  have hblank : ∀ c s, isBlank c →
      (all [bracedName, maybeBlanks, atEnd]).readings (c :: s) = [] := by
    intro c s hc
    have hnone : bracedName.readings (c :: s) = [] := by
      apply readings_bracedName_of_head
      rintro ⟨⟩
      simp [isBlank] at hc
    rw [all_cons_cons, readings, hnone, List.flatMap_nil]
  rw [kept?, soleName, all_cons_cons, readings_maybeBlanks_followedBy hblank, all_cons_cons,
    readings, readings_bracedName, sole?, leading?]
  cases read? (trimStart s) with
  | none => rfl
  | some found =>
      simp only [Option.toList_some, List.map_cons, List.map_nil, List.flatMap_singleton,
        readings_blank_end]
      split <;> simp [*]

/-! ### The first placeholder -/

/-- The first placeholder of a text: its name, and what follows it. -/
def first? : List Char → Option (List Char × List Char)
  | [] => none
  | c :: s =>
    match read? (c :: s) with
    | some found => some found
    | none => first? s

theorem search?_bracedName (s : List Char) :
    bracedName.search? s = (first? s).map fun found => ⟨some found.1, found.2⟩ := by
  fun_induction first? s with
  | case1 => rfl
  | case2 c s found hread => simp [search?, readings_bracedName, hread]
  | case3 c s hread ih => simp [search?, readings_bracedName, hread, ih]

/-- The placeholders of a text are the first one and those of what follows. -/
theorem occurrences_eq_first? (s : List Char) :
    occurrences s = match first? s with
      | some (name, rest) => String.ofList name :: occurrences rest
      | none => [] := by
  fun_induction first? s with
  | case1 => simp [occurrences, pieces]
  | case2 c s found hread =>
      rw [occurrences, pieces_of_read? hread]
      rfl
  | case3 c s hread ih =>
      rw [occurrences, pieces_cons hread, filterMap_consPlain, ← occurrences, ih]

end Placeholder

/-! ### Addresses -/

/-- The part of an address in front of its placeholder. -/
def addressLead : Phrase :=
  oneOf [all [exact "http".toList, optional (exact ['s']), exact "://".toList, run isAddressChar 0],
    all [exact ['/'], run isAddressChar 0]]

/-- An address with a placeholder in it. -/
def address : Phrase :=
  captured (all [optional addressLead, Placeholder.bracedName, run isTailChar 0])

theorem dropPrefix?_append_eq_bind (lead next s : List Char) :
    dropPrefix? (lead ++ next) s = (dropPrefix? lead s).bind (dropPrefix? next) := by
  induction lead generalizing s with
  | nil => rfl
  | cons p lead ih =>
      cases s with
      | nil => rfl
      | cons c s =>
          by_cases hc : p = c
          · simp [dropPrefix?, hc, ih]
          · simp [dropPrefix?, hc]

/-- The letter that tells the two schemes apart is read, or it is not there. -/
theorem rests_scheme (s : List Char) :
    (all [exact "http".toList, optional (exact ['s']), exact "://".toList,
      run isAddressChar 0]).rests s =
        ((dropPrefix? "https://".toList s).or (dropPrefix? "http://".toList s)).toList.flatMap
          (run isAddressChar 0).rests := by
  have hsecure := dropPrefix?_append_eq_bind "http".toList (['s'] ++ "://".toList) s
  have hopen := dropPrefix?_append_eq_bind "http".toList "://".toList s
  change dropPrefix? "https://".toList s = _ at hsecure
  change dropPrefix? "http://".toList s = _ at hopen
  rw [hsecure, hopen, all_cons_cons, rests_exact_followedBy]
  cases dropPrefix? "http".toList s with
  | none => rfl
  | some rest =>
      rw [Option.toList_some, List.flatMap_singleton, Option.bind_some, Option.bind_some,
        dropPrefix?_append_eq_bind, all_cons_cons, all_cons_cons, all, rests_followedBy,
        rests_optional, rests_exact, List.flatMap_append, List.flatMap_singleton,
        rests_exact_followedBy]
      cases hletter : dropPrefix? ['s'] rest with
      | none => rfl
      | some after =>
          obtain rfl := dropPrefix?_eq_some.1 hletter
          have hcolon : dropPrefix? "://".toList (['s'] ++ after) = none := rfl
          rw [hcolon, Option.toList_none, List.flatMap_nil, List.append_nil, Option.or_none,
            Option.toList_some, List.flatMap_singleton, rests_exact_followedBy, Option.bind_some]

/-- What follows the scheme of an address, or the slash it starts with. -/
def afterStart? (s : List Char) : Option (List Char) :=
  ["https://", "http://", "/"].findSome? fun start => dropPrefix? start.toList s

theorem afterLead_eq (s : List Char) :
    afterLead s = match afterStart? s with
      | some rest => rest.dropWhile isAddressChar
      | none => s := rfl

theorem head?_of_afterStart? {s rest : List Char} (h : afterStart? s = some rest) :
    s.head? ≠ some '\x7b' := by
  obtain ⟨start, hstart, hdrop⟩ := List.exists_of_findSome?_eq_some h
  rw [dropPrefix?_eq_some.1 hdrop]
  rw [List.mem_cons, List.mem_cons, List.mem_singleton] at hstart
  obtain rfl | rfl | rfl := hstart
  all_goals simp

theorem afterStart?_eq_or (s : List Char) :
    afterStart? s = ((dropPrefix? "https://".toList s).or (dropPrefix? "http://".toList s)).or
      (dropPrefix? ['/'] s) := by
  have hslash : dropPrefix? "/".toList s = dropPrefix? ['/'] s := rfl
  rw [afterStart?, List.findSome?_cons, List.findSome?_cons, List.findSome?_cons, hslash]
  cases dropPrefix? "https://".toList s with
  | some rest => rfl
  | none =>
      cases dropPrefix? "http://".toList s with
      | some rest => rfl
      | none => cases dropPrefix? ['/'] s <;> rfl

theorem rests_addressLead (s : List Char) :
    addressLead.rests s = (afterStart? s).toList.flatMap (run isAddressChar 0).rests := by
  have hlead : addressLead = either (all [exact "http".toList, optional (exact ['s']),
      exact "://".toList, run isAddressChar 0]) (all [exact ['/'], run isAddressChar 0]) := rfl
  rw [hlead, rests_either, rests_scheme, all_cons_cons, all, rests_exact_followedBy,
    afterStart?_eq_or]
  cases hscheme : (dropPrefix? "https://".toList s).or (dropPrefix? "http://".toList s) with
  | none => rfl
  | some rest =>
      have hslash : dropPrefix? ['/'] s = none := by
        obtain hdrop | ⟨-, hdrop⟩ := Option.or_eq_some_iff.1 hscheme
        · rw [dropPrefix?_eq_some.1 hdrop]
          rfl
        · rw [dropPrefix?_eq_some.1 hdrop]
          rfl
      rw [hslash, Option.toList_none, List.flatMap_nil, List.append_nil, Option.or_none]

theorem head?_rests_address (s : List Char) :
    ((all [optional addressLead, Placeholder.bracedName, run isTailChar 0]).rests s).head? =
      afterAddress? s := by
  have hbraced : ∀ t : List Char, t.head? ≠ some '\x7b' →
      (all [Placeholder.bracedName, run isTailChar 0]).rests t = [] := by
    intro t ht
    rw [all_cons_cons, rests_followedBy, rests, Placeholder.readings_bracedName_of_head ht]
    rfl
  have hpast : ∀ c t, isAddressChar c →
      (all [Placeholder.bracedName, run isTailChar 0]).rests (c :: t) = [] := by
    intro c t hc
    apply hbraced
    rintro ⟨⟩
    simp [isAddressChar] at hc
  -- a lead that is there cannot be left out, since the text then starts with a letter or a slash
  have hlead : ((optional addressLead).rests s).flatMap
      (all [Placeholder.bracedName, run isTailChar 0]).rests =
        (all [Placeholder.bracedName, run isTailChar 0]).rests (afterLead s) := by
    rw [rests_optional, rests_addressLead, List.flatMap_append, List.flatMap_assoc,
      List.flatMap_singleton, afterLead_eq]
    cases hstart : afterStart? s with
    | none => rfl
    | some rest =>
        rw [Option.toList_some, List.flatMap_singleton, flatMap_rests_run hpast,
          hbraced s (head?_of_afterStart? hstart), List.append_nil]
  rw [all_cons_cons, rests_followedBy, hlead, afterAddress?, all_cons_cons, all, rests_followedBy,
    rests, Placeholder.readings_bracedName]
  cases Placeholder.read? (afterLead s) with
  | none => rfl
  | some found =>
      simp only [Option.toList_some, List.map_cons, List.map_nil, List.flatMap_singleton,
        Option.map_some]
      rw [rests_run, head?_runRests]

theorem addressToken?_eq_find? (s : List Char) :
    addressToken? s = (address.find? s).map (trimEndOf isStop) := by
  have hhead : ∀ s, (address.readings s).head? = (afterAddress? s).map fun rest =>
      ⟨some (s.take (s.length - rest.length)), rest⟩ := by
    intro s
    rw [address, readings_captured, List.head?_map, head?_rests_address]
  rw [find?_eq_search?]
  induction s with
  | nil =>
      rw [search?, hhead]
      rfl
  | cons c s ih =>
      rw [search?_cons, hhead, addressToken?]
      cases afterAddress? (c :: s) with
      | some rest => rfl
      | none => exact ih

/-- The readers of a text find what their patterns find, the leftmost place first. -/
structure ReadsPatterns (s : List Char) : Prop where
  first : Placeholder.bracedName.search? s =
    (Placeholder.first? s).map fun found => ⟨some found.1, found.2⟩
  /-- The search for placeholders goes on behind each of them. -/
  occurrences : Placeholder.occurrences s = match Placeholder.first? s with
    | some (name, rest) => String.ofList name :: Placeholder.occurrences rest
    | none => []
  leading : Placeholder.bracedName.readings (trimStart s) =
    (Placeholder.leading? s).toList.map fun found => ⟨some found.1, found.2⟩
  sole : Placeholder.sole? s = Placeholder.soleName.kept? s
  token : addressToken? s = (address.find? s).map (trimEndOf isStop)

theorem readsPatterns (s : List Char) : ReadsPatterns s where
  first := Placeholder.search?_bracedName s
  occurrences := Placeholder.occurrences_eq_first? s
  leading := Placeholder.readings_bracedName (trimStart s)
  sole := Placeholder.sole?_eq_kept? s
  token := addressToken?_eq_find? s

end TraceExport.Spec
