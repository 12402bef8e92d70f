import TraceExport.Files.Disk

/-!
What the operations of a disk change. Where a path leads depends on the directories
of the disk alone, and a path that can be followed is followed the same way as long
as these are kept (`place_of_keeps`). Making a directory makes those that are
missing on the way, and keeps all else; writing a file changes what is in its place
and nothing else.
-/

namespace TraceExport.Disk

/-! ### Contents -/

/-- What a disk holds, times apart. -/
def contents (d : Disk) : List (Place × Node) := d.nodes.map fun e => (e.place, e.node)

theorem node?_eq_find? (d : Disk) {q : Place} (hq : q ≠ []) :
    d.node? q = (d.contents.find? (·.1 = q)).map Prod.snd := by
  unfold node?
  split
  · exact absurd rfl hq
  · rw [contents, List.find?_map, Option.map_map]
    rfl

@[simp] theorem contents_touch (d : Disk) (place : Place) (time : Nat) :
    (d.touch place time).contents = d.contents := by
  unfold touch contents
  simp only [List.map_map]
  refine List.map_congr_left fun e _ => ?_
  simp only [Function.comp_apply]
  split <;> rfl

/-- A node that is put in a place stands there instead of what was there, or comes
after all others. -/
theorem contents_put (d : Disk) (place : Place) (node : Node) :
    (d.put place node).contents =
      if place ∈ d.contents.map Prod.fst then
        d.contents.map fun x => if x.1 = place then (place, node) else x
      else d.contents ++ [(place, node)] := by
  have hplace : d.nodes.any (·.place = place) ↔ place ∈ d.contents.map Prod.fst := by
    simp [contents]
  unfold put
  simp only
  by_cases hmem : place ∈ d.contents.map Prod.fst
  · rw [if_pos (hplace.2 hmem), if_pos hmem]
    simp only [contents, List.map_map]
    refine List.map_congr_left fun e _ => ?_
    simp only [Function.comp_apply]
    split <;> rfl
  · have hkept := contents_touch { d with clock := d.clock + 1 } (place.drop 1) d.clock
    rw [if_neg (mt hplace.1 hmem), if_neg hmem]
    rw [contents, List.map_append]
    exact congrArg (· ++ [(place, node)]) hkept

theorem find?_map_ite {contents : List (Place × Node)} {place q : Place} {node : Node} :
    (contents.map fun x => if x.1 = place then (place, node) else x).find? (·.1 = q) =
      (contents.find? (·.1 = q)).map fun x => if x.1 = place then (place, node) else x := by
  rw [List.find?_map]
  congr 2
  funext x
  by_cases hx : x.1 = place <;> simp [hx]

theorem node?_put {d : Disk} {place : Place} (hplace : place ≠ []) (node : Node) (q : Place) :
    (d.put place node).node? q = if q = place then some node else d.node? q := by
  by_cases hq : q = []
  · subst hq
    rw [if_neg (Ne.symm hplace)]
    rfl
  · rw [node?_eq_find? _ hq, node?_eq_find? _ hq, contents_put]
    split
    · rename_i hmem
      rw [find?_map_ite]
      by_cases heq : q = place
      · subst heq
        obtain ⟨x, hx, hplace⟩ := List.mem_map.1 hmem
        obtain ⟨y, hy⟩ := Option.isSome_iff_exists.1 (List.find?_isSome.2 ⟨x, hx, by simp [hplace]⟩ :
          (d.contents.find? (·.1 = q)).isSome)
        have hfound : y.1 = q := by simpa using List.find?_some hy
        simp [hy, hfound]
      · rw [if_neg heq]
        cases hfind : d.contents.find? (·.1 = q) with
        | none => rfl
        | some y =>
            have hfound : y.1 = q := by simpa using List.find?_some hfind
            have hother : y.1 ≠ place := fun hy => heq (hfound.symm.trans hy)
            simp [hother]
    · rename_i hnew
      rw [List.find?_append]
      by_cases heq : q = place
      · subst heq
        have hnone : d.contents.find? (·.1 = q) = none := by
          refine List.find?_eq_none.2 fun x hx hplace => ?_
          exact hnew (List.mem_map.2 ⟨x, hx, by simpa using hplace⟩)
        simp [hnone]
      · rw [if_neg heq, List.find?_singleton, if_neg (by simpa using Ne.symm heq), Option.or_none]

/-- Every directory of one disk is one of the other. -/
def KeepsDirectories (d d' : Disk) : Prop :=
  ∀ q, d.node? q = some .directory → d'.node? q = some .directory

theorem KeepsDirectories.refl (d : Disk) : KeepsDirectories d d := fun _ h => h

theorem KeepsDirectories.trans {d₁ d₂ d₃ : Disk} (h₁ : KeepsDirectories d₁ d₂)
    (h₂ : KeepsDirectories d₂ d₃) : KeepsDirectories d₁ d₃ := fun q h => h₂ q (h₁ q h)

theorem keepsDirectories_put {d : Disk} {place : Place} (hplace : place ≠ [])
    (hnode : d.node? place ≠ some .directory) (node : Node) :
    KeepsDirectories d (d.put place node) := by
  intro q hq
  rw [node?_put hplace, if_neg, hq]
  rintro rfl
  exact hnode hq

/-- The next component is entered from a directory, and from any disk that has it. -/
theorem enter_eq_ok {d : Disk} {place next : Place} {c : Component}
    (h : d.enter place c = .ok next) : d.node? place = some .directory ∧
      ∀ d' : Disk, d'.node? place = some .directory → d'.enter place c = .ok next := by
  have hplace : d.node? place = some .directory := by
    unfold enter at h
    split at h
    · simp at h
    · simp at h
    · assumption
  refine ⟨hplace, fun d' hd' => ?_⟩
  unfold enter at h ⊢
  rw [hplace] at h
  rw [hd']
  exact h

theorem enter_name {d : Disk} {place next : Place} {name : String}
    (h : d.enter place (.normal name) = .ok next) : next = name :: place := by
  unfold enter at h
  split at h
  · simp at h
  · simp at h
  · simp only at h
    split at h
    · simp at h
    · exact (Except.ok.inj h).symm

/-- Where components lead from a place. -/
def follow (d : Disk) (start : Place) (cs : List Component) : Except FileError Place :=
  cs.foldlM d.enter start

theorem follow_cons {d : Disk} {start goal : Place} {c : Component} {cs : List Component} :
    d.follow start (c :: cs) = .ok goal ↔
      ∃ next, d.enter start c = .ok next ∧ d.follow next cs = .ok goal := by
  rw [follow, List.foldlM_cons]
  cases hnext : d.enter start c with
  | error e => simp [bind, Except.bind]
  | ok next => simp [bind, Except.bind, follow]

theorem follow_append {d : Disk} {start goal : Place} {cs cs' : List Component} :
    d.follow start (cs ++ cs') = .ok goal ↔
      ∃ next, d.follow start cs = .ok next ∧ d.follow next cs' = .ok goal := by
  rw [follow, List.foldlM_append]
  cases hnext : cs.foldlM d.enter start with
  | error e => simp [bind, Except.bind, follow, hnext]
  | ok next => simp [bind, Except.bind, follow, hnext]

theorem KeepsDirectories.follow {d d' : Disk} (h : KeepsDirectories d d') {start goal : Place}
    {cs : List Component} (hd : d.follow start cs = .ok goal) : d'.follow start cs = .ok goal := by
  induction cs generalizing start with
  | nil => exact hd
  | cons c cs ih =>
      obtain ⟨next, hnext, hgoal⟩ := follow_cons.1 hd
      obtain ⟨hstart, hsame⟩ := enter_eq_ok hnext
      exact follow_cons.2 ⟨next, hsame d' (h start hstart), ih hgoal⟩

theorem place_of_keeps {d d' : Disk} (h : KeepsDirectories d d') {p : Path} {q : Place}
    (hd : d.place p = .ok q) : d'.place p = .ok q :=
  h.follow hd

/-! ### Making directories -/

/-- What making the directories along some components does to a disk. -/
structure Makes (d d' : Disk) (start : Place) (cs : List Component) (goal : Place) : Prop where
  keeps : KeepsDirectories d d'
  leads : d'.follow start cs = .ok goal
  isDirectory : d'.node? goal = some .directory
  /-- Nothing changes but that what was missing on the way is made. -/
  only : ∀ q, d'.node? q = d.node? q ∨
    d.node? q = none ∧ d'.node? q = some .directory ∧
      ∃ front, front <+: cs ∧ d'.follow start front = .ok q
  /-- Where all of these directories are, nothing is left to do. -/
  done : ∀ e, KeepsDirectories d' e → e.makeFrom start cs = (.ok (), e)

theorem makeOne_eq_ok {d d' : Disk} {place : Place} {last : Bool}
    (h : d.makeOne place last = .ok d') :
    (d.node? place = some .directory ∧ d' = d) ∨
      (d.node? place = none ∧ d' = d.put place .directory) := by
  unfold makeOne at h
  split at h
  · rename_i hnode
    exact .inl ⟨hnode, (Except.ok.inj h).symm⟩
  · simp at h
  · rename_i hnode
    exact .inr ⟨hnode, (Except.ok.inj h).symm⟩

theorem makeOne_directory {d : Disk} {place : Place} (h : d.node? place = some .directory)
    (last : Bool) : d.makeOne place last = .ok d := by
  rw [makeOne, h]

/-- Making one directory adds it, if it was missing, and keeps all else. -/
theorem node?_makeOne {d d' : Disk} {place : Place} {last : Bool}
    (h : d.makeOne place last = .ok d') : d'.node? place = some .directory ∧
      ∀ q, d'.node? q = d.node? q ∨ q = place ∧ d.node? q = none := by
  obtain ⟨hnode, rfl⟩ | ⟨hnode, rfl⟩ := makeOne_eq_ok h
  · exact ⟨hnode, fun q => .inl rfl⟩
  · have hplace : place ≠ [] := by
      rintro rfl
      simp [node?] at hnode
    refine ⟨by rw [node?_put hplace, if_pos rfl], fun q => ?_⟩
    by_cases hq : q = place
    · exact .inr ⟨hq, hq ▸ hnode⟩
    · exact .inl (by rw [node?_put hplace, if_neg hq])

theorem Makes.cons {d₁ d₂ d₃ : Disk} {start next goal : Place} {c : Component}
    {cs : List Component} {last : Bool} (henter : d₁.enter start c = .ok next)
    (hone : d₁.makeOne next last = .ok d₂) (h : Makes d₂ d₃ next cs goal) :
    Makes d₁ d₃ start (c :: cs) goal := by
  obtain ⟨hnext, hsame⟩ := node?_makeOne hone
  obtain ⟨hstart, hagain⟩ := enter_eq_ok henter
  have hfirst : KeepsDirectories d₁ d₂ := by
    intro q hq
    obtain heq | ⟨-, hnone⟩ := hsame q
    · rw [heq, hq]
    · rw [hnone] at hq
      cases hq
  have hkeeps := hfirst.trans h.keeps
  have henter₃ := hagain d₃ (hkeeps start hstart)
  refine ⟨hkeeps, follow_cons.2 ⟨next, henter₃, h.leads⟩, h.isDirectory, fun q => ?_,
    fun e he => ?_⟩
  · obtain heq | ⟨rfl, hnone⟩ := hsame q
    · obtain hkept | ⟨hnone, hmade, front, hfront, hleads⟩ := h.only q
      · exact .inl (hkept.trans heq)
      · exact .inr ⟨heq ▸ hnone, hmade, c :: front, List.cons_prefix_cons.2 ⟨rfl, hfront⟩,
          follow_cons.2 ⟨next, henter₃, hleads⟩⟩
    · exact .inr ⟨hnone, h.keeps _ hnext, [c], by simp, follow_cons.2 ⟨_, henter₃, rfl⟩⟩
  · have hdirectory := he next (h.keeps next hnext)
    rw [makeFrom, hagain e (he start (hkeeps start hstart))]
    simp only [makeOne_directory hdirectory, h.done e he]

theorem makes_of_makeFrom {d d' : Disk} {start : Place} {cs : List Component}
    (hstart : d.node? start = some .directory) (h : d.makeFrom start cs = (.ok (), d')) :
    ∃ goal, Makes d d' start cs goal := by
  induction cs generalizing d start with
  | nil =>
      obtain rfl : d = d' := by simpa [makeFrom] using h
      exact ⟨start, .refl d, rfl, hstart, fun q => .inl rfl, fun e _ => rfl⟩
  | cons c cs ih =>
      rw [makeFrom] at h
      split at h
      · simp at h
      · rename_i next henter
        split at h
        · simp at h
        · rename_i d₁ hone
          obtain ⟨goal, hrest⟩ := ih (node?_makeOne hone).1 h
          exact ⟨goal, hrest.cons henter hone⟩

theorem makes_of_makeDirectory {d d' : Disk} {p : Path}
    (h : d.makeDirectory p = (.ok (), d')) : (∃ goal, Makes d d' [] p.components goal) ∧
      ∀ e, KeepsDirectories d' e → e.makeDirectory p = (.ok (), e) := by
  unfold makeDirectory at h
  split at h
  · simp at h
  · rename_i hnul
    obtain ⟨goal, hmakes⟩ := makes_of_makeFrom rfl h
    refine ⟨⟨goal, hmakes⟩, fun e he => ?_⟩
    rw [makeDirectory, if_neg hnul, hmakes.done e he]

/-! ### Files -/

theorem writeText_eq_ok {d d' : Disk} {p : Path} {text : String} :
    d.writeText p text = (.ok (), d') ↔ ∃ q, d.place p = .ok q ∧
      d.node? q ≠ some .directory ∧ d.node? (q.drop 1) = some .directory ∧
        d' = d.put q (.file (Text.Utf8.encode text.toList)) := by
  constructor
  · intro h
    unfold writeText at h
    split at h
    · simp at h
    · rename_i q hplace
      split at h
      · simp at h
      · rename_i hnode
        split at h
        · rename_i hparent
          exact ⟨q, hplace, hnode, hparent, (Prod.mk.inj h).2.symm⟩
        · simp at h
        · simp at h
  · rintro ⟨q, hplace, hnode, hparent, rfl⟩
    rw [writeText, hplace]
    simp only [hparent]

theorem find_eq_ok {d : Disk} {p : Path} {q : Place} {node : Node} :
    d.find p = .ok (q, node) ↔
      p.text.toList.contains '\x00' = false ∧ d.place p = .ok q ∧ d.node? q = some node := by
  unfold find
  cases hnul : p.text.toList.contains '\x00' with
  | true => simp [throw, throwThe, MonadExceptOf.throw, bind, Except.bind]
  | false =>
      cases hplace : d.place p with
      | error e => simp [bind, Except.bind]
      | ok r =>
          cases hnode : d.node? r with
          | none =>
              simp only [bind, Except.bind, hnode]
              constructor
              · rintro ⟨⟩
              · rintro ⟨-, ⟨⟩, hsome⟩
                rw [hnode] at hsome
                cases hsome
          | some found =>
              simp only [bind, Except.bind, hnode]
              constructor
              · rintro ⟨⟩
                exact ⟨trivial, rfl, hnode⟩
              · rintro ⟨-, ⟨⟩, hsome⟩
                rw [hnode] at hsome
                cases hsome
                rfl

/-- A text is read from a file, and from any disk that has it in the same place. -/
theorem readText_eq_ok {d : Disk} {p : Path} {text : String} (h : d.readText p = .ok text) :
    ∃ q bytes, d.place p = .ok q ∧ d.node? q = some (.file bytes) ∧
      ∀ d' : Disk, d'.place p = .ok q → d'.node? q = some (.file bytes) →
        d'.readText p = .ok text := by
  unfold readText at h
  cases hfind : d.find p with
  | error e => simp [hfind, bind, Except.bind] at h
  | ok found =>
      obtain ⟨q, node⟩ := found
      obtain ⟨hnul, hplace, hnode⟩ := find_eq_ok.1 hfind
      cases node with
      | directory => simp [hfind, bind, Except.bind, throw, throwThe, MonadExceptOf.throw] at h
      | file bytes =>
          refine ⟨q, bytes, hplace, hnode, fun d' hplace' hnode' => ?_⟩
          rw [readText, find_eq_ok.2 ⟨hnul, hplace', hnode'⟩]
          rw [hfind] at h
          exact h

/-! ### Operations -/

@[simp] theorem run_readText (d : Disk) (p : Path) :
    (FileSystem.readText p : StateM Disk _) d = (d.readText p, d) := rfl

@[simp] theorem run_makeDirectory (d : Disk) (p : Path) :
    (FileSystem.makeDirectory p : StateM Disk _) d = d.makeDirectory p := rfl

@[simp] theorem run_writeText (d : Disk) (p : Path) (text : String) :
    (FileSystem.writeText p text : StateM Disk _) d = d.writeText p text := rfl

end TraceExport.Disk
