import Mathlib.Data.List.Forall2
import Mathlib.Data.List.Nodup
import TraceExport.Json.Decode

/-!
Objects that have gained members. `Widens` relates an object to one with the same
fields in any order and with other members besides; the fields read from both are
the same (`fields_widened`). What a value may be used as is plain, so that it stays as
it is when it is read again (`plain?_of_plain?`).
-/

namespace TraceExport.Json

/-! ### Members -/

@[simp] theorem member?_nil (name : String) : member? name [] = none := rfl

@[simp] theorem member?_cons (name n : String) (value : Json) (members : List (String × Json)) :
    member? name ((n, value) :: members) =
      if n = name then some value else member? name members := by
  unfold member?
  rw [List.find?_cons]
  by_cases h : n = name
  · simp [h]
  · simp [beq_false_of_ne h, h]

@[simp] theorem member?_append (name : String) (ms ns : List (String × Json)) :
    member? name (ms ++ ns) = (member? name ms).or (member? name ns) := by
  unfold member?
  rw [List.find?_append]
  cases ms.find? (·.1 == name) <;> rfl

@[simp] theorem member?_memberOf? {α : Type} (name n : String) (encode : α → Json)
    (value : Option α) : member? name (memberOf? n encode value) = if n = name then value.map encode else none := by
  cases value with
  | none => simp [memberOf?, member?]
  | some value =>
      rw [memberOf?, member?_cons]
      rfl

theorem map_fst_memberOf? {α : Type} (n : String) (encode : α → Json) (value : Option α) :
    ((memberOf? n encode value).map Prod.fst).Sublist [n] := by
  cases value <;> simp [memberOf?]

theorem member?_eq_head? (name : String) (members : List (String × Json)) :
    member? name members = (valuesOf members name).head? := by
  simp [member?, valuesOf, List.head?_filter]

theorem length_valuesOf (name : String) (members : List (String × Json)) :
    (valuesOf members name).length = (members.map Prod.fst).count name := by
  rw [valuesOf, List.length_map, List.count_eq_countP, List.countP_map,
    ← List.countP_eq_length_filter]
  rfl

theorem length_valuesOf_le {members : List (String × Json)} (h : (members.map Prod.fst).Nodup)
    (name : String) : (valuesOf members name).length ≤ 1 := by
  rw [length_valuesOf]
  exact List.nodup_iff_count_le_one.1 h name

/-! ### Wider values -/

/-- An object that has each member of another one, its value replaced by one that `rel` relates it
to, and besides these only members that are no field of the record; in any order. -/
inductive Widens (names : List String) (rel : String → Json → Json → Prop) : Json → Json → Prop where
  | intro {members kept extra wider : List (String × Json)}
      (related : List.Forall₂ (fun m k => m.1 = k.1 ∧ rel m.1 m.2 k.2) members kept)
      (unknown : ∀ m ∈ extra, m.1 ∉ names)
      (perm : wider.Perm (kept ++ extra)) :
      Widens names rel (object members) (object wider)

/-- Lists whose items are wider one by one. -/
inductive WidensItems (rel : Json → Json → Prop) : Json → Json → Prop where
  | intro {items wider : List Json} (related : List.Forall₂ rel items wider) :
      WidensItems rel (array items) (array wider)

variable {names : List String} {rel : String → Json → Json → Prop}

theorem Widens.refl {members : List (String × Json)} (h : ∀ m ∈ members, rel m.1 m.2 m.2) :
    Widens names rel (object members) (object members) := by
  refine @Widens.intro names rel members members [] members
    (List.forall₂_same.2 fun m hm => ⟨rfl, h m hm⟩) (by simp) ?_
  rw [List.append_nil]

theorem map_fst_eq_of_related {members kept : List (String × Json)}
    (h : List.Forall₂ (fun m k => m.1 = k.1 ∧ rel m.1 m.2 k.2) members kept) :
    kept.map Prod.fst = members.map Prod.fst := by
  induction h with
  | nil => rfl
  | cons hhead _ ih => rw [List.map_cons, List.map_cons, ih, hhead.1]

theorem rel_member?_of_related {members kept : List (String × Json)}
    (h : List.Forall₂ (fun m k => m.1 = k.1 ∧ rel m.1 m.2 k.2) members kept) (name : String) :
    Option.Rel (rel name) (member? name members) (member? name kept) := by
  induction h with
  | nil => exact .none
  | @cons m k ms ks hhead _ ih =>
      obtain ⟨n, value⟩ := m
      obtain ⟨n', value'⟩ := k
      obtain ⟨rfl, hvalue⟩ : n = n' ∧ rel n value value' := hhead
      rw [member?_cons, member?_cons]
      by_cases hn : n = name
      · subst hn
        rw [if_pos rfl, if_pos rfl]
        exact .some hvalue
      · rw [if_neg hn, if_neg hn]
        exact ih

/-- Members that are no field do not count among the values of a field. -/
theorem valuesOf_widened {kept extra wider : List (String × Json)}
    (hkept : (kept.map Prod.fst).Nodup) (hextra : ∀ m ∈ extra, m.1 ∉ names)
    (hperm : wider.Perm (kept ++ extra)) {name : String} (hname : name ∈ names) :
    valuesOf wider name = valuesOf kept name := by
  have hnone : valuesOf extra name = [] := by
    rw [valuesOf, List.map_eq_nil_iff, List.filter_eq_nil_iff]
    intro m hm heq
    exact hextra m hm (by simpa using (beq_iff_eq.1 heq).symm ▸ hname)
  have hvalues : (valuesOf wider name).Perm (valuesOf kept name) := by
    have h := (hperm.filter (·.1 == name)).map Prod.snd
    rw [List.filter_append, List.map_append] at h
    change (valuesOf wider name).Perm (valuesOf kept name ++ valuesOf extra name) at h
    rwa [hnone, List.append_nil] at h
  have hlength := length_valuesOf_le hkept name
  match hk : valuesOf kept name with
  | [] => exact (hk ▸ hvalues).eq_nil
  | [value] => exact List.perm_singleton.1 (hk ▸ hvalues)
  | _ :: _ :: _ => simp [hk] at hlength

/-- The fields of a wider object are the fields of the object. -/
theorem fields_widened {members : List (String × Json)} {value : Json}
    (h : Widens names rel (object members) value)
    (hnames : (members.map Prod.fst).Nodup) :
    ∃ fs, fields names value = .ok fs ∧
      ∀ name ∈ names, Option.Rel (rel name) (member? name members) (fs name) := by
  cases h with
  | @intro _ kept extra wider hrelated hextra hperm =>
      have hkept : (kept.map Prod.fst).Nodup := map_fst_eq_of_related hrelated ▸ hnames
      have hvalues {name : String} (hname : name ∈ names) :=
        valuesOf_widened hkept hextra hperm hname
      have hsingle : names.find? (fun name => (valuesOf wider name).length > 1) = none := by
        rw [List.find?_eq_none]
        intro name hname
        have := length_valuesOf_le hkept name
        rw [hvalues hname]
        simpa using this
      refine ⟨fun name => member? name wider, by simp only [fields, hsingle], fun name hname => ?_⟩
      show Option.Rel _ _ (member? name wider)
      rw [member?_eq_head? name wider, hvalues hname, ← member?_eq_head?]
      exact rel_member?_of_related hrelated name

/-! ### Fields -/

section

variable {α : Type} {decode : Decoder α} {fs : Fields} {name : String} {rel : Json → Json → Prop}

theorem required_of_rel {value : Json} {x : α} (h : Option.Rel rel (some value) (fs name))
    (hdecode : ∀ wider, rel value wider → decode wider = .ok x) :
    required decode fs name = .ok x := by
  unfold required
  cases hfs : fs name with
  | none => rw [hfs] at h; cases h
  | some wider =>
      rw [hfs] at h
      cases h with
      | some hrel => exact hdecode wider hrel

theorem defaulting_of_rel {absent : α} {value : Json} {x : α}
    (h : Option.Rel rel (some value) (fs name))
    (hdecode : ∀ wider, rel value wider → decode wider = .ok x) :
    defaulting absent decode fs name = .ok x := by
  unfold defaulting
  cases hfs : fs name with
  | none => rw [hfs] at h; cases h
  | some wider =>
      rw [hfs] at h
      cases h with
      | some hrel => exact hdecode wider hrel

theorem optional_of_rel {encode : α → Json} {x? : Option α}
    (h : Option.Rel rel (x?.map encode) (fs name)) (hnull : ∀ x, decode null ≠ .ok x)
    (hdecode : ∀ x ∈ x?, ∀ wider, rel (encode x) wider → decode wider = .ok x) :
    optional decode fs name = .ok x? := by
  unfold optional
  cases x? with
  | none =>
      cases hfs : fs name with
      | none => rfl
      | some wider => rw [hfs] at h; cases h
  | some x =>
      cases hfs : fs name with
      | none => rw [hfs] at h; cases h
      | some wider =>
          rw [hfs] at h
          cases h with
          | some hrel =>
              have hwider := hdecode x rfl wider hrel
              cases wider with
              | null => exact absurd hwider (hnull x)
              | _ => simp only [hwider]; rfl

end

/-! ### Plain values -/

theorem map_fst_setMember (name : String) (value : Json) (members : List (String × Json)) :
    (setMember name value members).map Prod.fst =
      if name ∈ members.map Prod.fst then members.map Prod.fst
      else members.map Prod.fst ++ [name] := by
  induction members with
  | nil => rfl
  | cons m ms ih =>
      obtain ⟨n, v⟩ := m
      rw [setMember]
      by_cases h : n = name
      · simp [h]
      · rw [if_neg h, List.map_cons, ih]
        by_cases hms : name ∈ ms.map Prod.fst
        · simp [hms]
        · simp [hms, Ne.symm h]

theorem nodup_setMember {name : String} {value : Json} {members : List (String × Json)}
    (h : (members.map Prod.fst).Nodup) : ((setMember name value members).map Prod.fst).Nodup := by
  rw [map_fst_setMember]
  split
  · exact h
  · rename_i hname
    exact List.nodup_append.2 ⟨h, List.nodup_singleton _, by
      intro a ha b hb heq
      exact hname (List.mem_singleton.1 hb ▸ heq ▸ ha)⟩

theorem mem_setMember {name : String} {value : Json} {members : List (String × Json)}
    {m : String × Json} (h : m ∈ setMember name value members) :
    m = (name, value) ∨ m ∈ members := by
  induction members with
  | nil => exact .inl (List.mem_singleton.1 h)
  | cons head rest ih =>
      obtain ⟨n, v⟩ := head
      rw [setMember] at h
      split at h
      · exact (List.mem_cons.1 h).imp_right fun h => List.mem_cons_of_mem _ h
      · rcases List.mem_cons.1 h with rfl | h
        · exact .inr List.mem_cons_self
        · exact (ih h).imp_right fun h => List.mem_cons_of_mem _ h

theorem setMember_eq_append {name : String} {value : Json} {members : List (String × Json)}
    (h : name ∉ members.map Prod.fst) :
    setMember name value members = members ++ [(name, value)] := by
  induction members with
  | nil => rfl
  | cons m ms ih =>
      obtain ⟨n, v⟩ := m
      rw [List.map_cons, List.mem_cons, not_or] at h
      rw [setMember, if_neg (Ne.symm h.1), ih h.2, List.cons_append]

theorem foldl_setMember (members kept : List (String × Json))
    (h : ((kept ++ members).map Prod.fst).Nodup) :
    members.foldl (fun kept m => setMember m.1 m.2 kept) kept = kept ++ members := by
  induction members generalizing kept with
  | nil => simp
  | cons m ms ih =>
      have hm : m.1 ∉ kept.map Prod.fst := by
        rw [List.map_append, List.map_cons] at h
        exact fun hmem => (List.nodup_append.1 h).2.2 _ hmem _ List.mem_cons_self rfl
      have happend : kept ++ [m] ++ ms = kept ++ m :: ms := by simp
      rw [List.foldl_cons, setMember_eq_append hm, ih (kept ++ [m]) (happend ▸ h), happend]

/-- Members with different names are the last ones of their names. -/
theorem lastMembers_eq_self {members : List (String × Json)} (h : (members.map Prod.fst).Nodup) :
    lastMembers members = members :=
  foldl_setMember members [] h

theorem nodup_foldl_setMember (members : List (String × Json)) {kept : List (String × Json)}
    (h : (kept.map Prod.fst).Nodup) :
    ((members.foldl (fun kept m => setMember m.1 m.2 kept) kept).map Prod.fst).Nodup := by
  induction members generalizing kept with
  | nil => exact h
  | cons m ms ih => exact ih (nodup_setMember h)

theorem nodup_lastMembers (members : List (String × Json)) :
    ((lastMembers members).map Prod.fst).Nodup :=
  nodup_foldl_setMember members List.nodup_nil

theorem mem_foldl_setMember {members kept : List (String × Json)} {m : String × Json}
    (h : m ∈ members.foldl (fun kept m => setMember m.1 m.2 kept) kept) :
    m ∈ members ∨ m ∈ kept := by
  induction members generalizing kept with
  | nil => exact .inr h
  | cons head rest ih =>
      rcases ih h with hrest | hset
      · exact .inl (List.mem_cons_of_mem _ hrest)
      · refine (mem_setMember hset).imp_left fun heq => ?_
        rw [heq]
        exact List.mem_cons_self

theorem mem_of_mem_lastMembers {members : List (String × Json)} {m : String × Json}
    (h : m ∈ lastMembers members) : m ∈ members :=
  (mem_foldl_setMember h).resolve_right List.not_mem_nil

theorem plainMembers?_eq_self {members : List (String × Json)}
    (h : ∀ m ∈ members, plain? m.2 = some m.2) : plainMembers? members = some members := by
  induction members with
  | nil => rfl
  | cons m ms ih =>
      obtain ⟨hm, hms⟩ := List.forall_mem_cons.1 h
      rw [plainMembers?, hm, ih hms]

theorem plainItems?_eq_self {items : List Json} (h : ∀ item ∈ items, plain? item = some item) :
    plainItems? items = some items := by
  induction items with
  | nil => rfl
  | cons item items ih =>
      obtain ⟨hitem, hitems⟩ := List.forall_mem_cons.1 h
      rw [plainItems?, hitem, ih hitems]

mutual

/-- What a value may be used as is plain. -/
theorem plain?_of_plain? : ∀ {value w : Json}, plain? value = some w → plain? w = some w
  | null, _, h | bool _, _, h | integer _, _, h | float _, _, h | string _, _, h => by
      cases h
      rfl
  | unreadable, _, h => by cases h
  | array items, w, h => by
      obtain ⟨ws, hws, rfl⟩ := Option.map_eq_some_iff.1 h
      rw [plain?, plainItems?_eq_self (plain?_of_plainItems? hws)]
      rfl
  | object members, w, h => by
      obtain ⟨ws, hws, rfl⟩ := Option.map_eq_some_iff.1 h
      have hplain := plain?_of_plainMembers? hws
      rw [plain?, plainMembers?_eq_self fun m hm => hplain m (mem_of_mem_lastMembers hm)]
      show some (object (lastMembers (lastMembers ws))) = _
      rw [lastMembers_eq_self (nodup_lastMembers ws)]

theorem plain?_of_plainItems? : ∀ {items ws : List Json}, plainItems? items = some ws →
    ∀ w ∈ ws, plain? w = some w
  | [], _, h => by
      cases h
      simp
  | item :: items, ws, h => by
      rw [plainItems?] at h
      split at h
      · rename_i v vs hv hvs
        cases h
        exact List.forall_mem_cons.2 ⟨plain?_of_plain? hv, plain?_of_plainItems? hvs⟩
      · cases h

theorem plain?_of_plainMembers? : ∀ {members ws : List (String × Json)},
    plainMembers? members = some ws → ∀ m ∈ ws, plain? m.2 = some m.2
  | [], _, h => by
      cases h
      simp
  | (name, value) :: members, ws, h => by
      rw [plainMembers?] at h
      split at h
      · rename_i v vs hv hvs
        cases h
        exact List.forall_mem_cons.2 ⟨plain?_of_plain? hv, plain?_of_plainMembers? hvs⟩
      · cases h

end

end TraceExport.Json
