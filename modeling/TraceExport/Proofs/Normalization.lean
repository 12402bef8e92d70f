import TraceExport.Proofs.Path

/-!
Normalizing part by part. The normal form of a path goes the way of the path, except that
it climbs one directory or none, whichever leaves an even number out. So nothing is lost
by normalizing the parts of a path before they are joined, unless the second part climbs
more than once and there are directories in the first for it to undo
(`normalize_join_iff`).
-/

namespace TraceExport.Path

/-- How many directories a path climbs above where it starts. -/
def climb (p : Path) : Nat := (way p.components).up

/-- How many directories a path has gone down in the end. -/
def depth (p : Path) : Nat := (way p.components).down.length

/-! ### Normal forms -/

theorem isAbsolute_iff {p : Path} : p.isAbsolute = true ↔ .root ∈ p.components := by
  obtain ⟨cs, hcs, hcomponents⟩ := components_eq_root p
  cases habsolute : p.isAbsolute <;> simp [hcomponents, habsolute, hcs]

@[simp] theorem isAbsolute_normalize (p : Path) : p.normalize.isAbsolute = p.isAbsolute := by
  rw [Bool.eq_iff_iff, isAbsolute_iff, components_normalize, root_mem_plain]

theorem way_normalize (p : Path) : way p.normalize.components =
    ⟨(way p.components).up % 2, (way p.components).down⟩ := by
  rw [components_normalize, way_plain]

/-- Paths have one normal form if both or none start at the root, they climb alike, counted
by twos, and go down along the same names. -/
theorem normalize_eq_iff {p q : Path} : p.normalize = q.normalize ↔
    p.isAbsolute = q.isAbsolute ∧ (way p.components).up % 2 = (way q.components).up % 2 ∧
      (way p.components).down = (way q.components).down := by
  rw [← plain_inj, ← components_normalize, ← components_normalize]
  constructor
  · exact congrArg components
  · intro h
    rw [components_normalize, components_normalize, ← settled_components,
      ← settled_components] at h
    exact congrArg ofComponents h

@[simp] theorem normalize_normalize (p : Path) : p.normalize.normalize = p.normalize := by
  rw [normalize_eq_iff, way_normalize]
  simp

theorem components_of_normal {p : Path} (h : p.normalize = p) :
    p.components = plain p.isAbsolute (way p.components).up (way p.components).down ∧
      (way p.components).up ≤ 1 := by
  have hup : (way p.components).up = (way p.components).up % 2 := by
    have hway := way_normalize p
    rw [h] at hway
    exact congrArg Way.up hway
  have hcomponents := components_normalize p
  rw [h, ← hup] at hcomponents
  exact ⟨hcomponents, by omega⟩

/-! ### Joined paths -/

theorem text_ne_of_isAbsolute {p : Path} (h : p.isAbsolute = true) : p.text ≠ "" := by
  obtain ⟨text⟩ := p
  rintro rfl
  cases h

theorem join_absolute {p q : Path} (hq : q.isAbsolute = true) : p.join q = q := by
  rw [join, if_pos hq]

theorem resolve_relative {cwd p : Path} (hp : p.isAbsolute = false) :
    resolve cwd p = (cwd.join p).normalize := by
  rw [resolve, if_neg (by simp [hp])]

theorem way_named {p : Path} (h : p.isAbsolute = false) :
    way (named p.text.toList) = way p.components := by
  have hanchor : ∀ pieces, way (anchor pieces false) = ⟨0, []⟩ := by
    intro pieces
    unfold anchor
    split
    · rfl
    · split <;> rfl
  rw [components_eq, h, way_append, hanchor, Way.nil_andThen]

theorem way_join {p q : Path} (hp : p.isAbsolute = true) (hq : q.isAbsolute = false) :
    way (p.join q).components = (way p.components).andThen (way q.components) := by
  rw [components_join_relative (text_ne_of_isAbsolute hp) hq, way_append, way_named hq]

theorem isAbsolute_join {p q : Path} (hp : p.isAbsolute = true) :
    (p.join q).isAbsolute = true := by
  cases hq : q.isAbsolute with
  | true => rw [join_absolute hq, hq]
  | false =>
      rw [isAbsolute_iff, components_join_relative (text_ne_of_isAbsolute hp) hq]
      exact List.mem_append_left _ (isAbsolute_iff.1 hp)

theorem isAbsolute_resolve {cwd : Path} (hcwd : cwd.isAbsolute = true) (p : Path) :
    (resolve cwd p).isAbsolute = true := by
  cases hp : p.isAbsolute with
  | true => rw [resolve, if_pos hp, isAbsolute_normalize, hp]
  | false => rw [resolve_relative hp, isAbsolute_normalize, isAbsolute_join hcwd]

@[simp] theorem normalize_resolve (cwd p : Path) : (resolve cwd p).normalize = resolve cwd p := by
  unfold resolve
  split <;> exact normalize_normalize _

/-! ### Normalizing the parts -/

/-- The normal form of `b` undoes as many directories of `a` as `b` does: it climbs as far,
or there is nothing more to undo. -/
def ClimbsAlike (a b : Path) : Prop :=
  b.climb ≤ 1 ∨ a.depth = 0 ∨ a.depth = 1 ∧ b.climb % 2 = 1

instance (a b : Path) : Decidable (ClimbsAlike a b) := inferInstanceAs (Decidable (_ ∨ _))

theorem climbsAlike_iff {a b : Path} : ClimbsAlike a b ↔
    a.depth - b.climb = a.depth - b.climb % 2 := by
  unfold ClimbsAlike
  omega

/-- What is joined may be normalized before exactly if it climbs as far afterwards. -/
theorem normalize_join_relative_iff {a b c : Path} (ha : a.isAbsolute = true)
    (hb : b.isAbsolute = false) (hc : c.isAbsolute = true)
    (hac : c.normalize = a.normalize) :
    (a.join b).normalize = (c.join b.normalize).normalize ↔ ClimbsAlike a b := by
  obtain ⟨-, hup, hdown⟩ := normalize_eq_iff.1 hac
  have hb' : b.normalize.isAbsolute = false := by rw [isAbsolute_normalize, hb]
  rw [normalize_eq_iff, isAbsolute_join ha, isAbsolute_join hc, way_join ha hb, way_join hc hb',
    way_normalize, climbsAlike_iff, depth, climb]
  simp only [Way.up_andThen, Way.down_andThen, hdown, true_and, List.append_left_inj]
  constructor
  · rintro ⟨-, htake⟩
    have hlength := congrArg List.length htake
    rw [List.length_take, List.length_take] at hlength
    omega
  · intro hsame
    refine ⟨by omega, ?_⟩
    rw [hsame]

/-- The parts of a path may be normalized before they are joined, exactly if the second part
starts at the root or its normal form climbs as far. The same goes for a path that is resolved
in a directory. -/
theorem normalize_join_iff {a : Path} (ha : a.isAbsolute = true) (b : Path) :
    ((a.join b).normalize = (a.normalize.join b.normalize).normalize ↔
        b.isAbsolute = true ∨ ClimbsAlike a b) ∧
      (b.isAbsolute = false → (resolve a b.normalize = resolve a b ↔ ClimbsAlike a b)) := by
  have ha' : a.normalize.isAbsolute = true := by rw [isAbsolute_normalize, ha]
  cases hb : b.isAbsolute with
  | true =>
      have hb' : b.normalize.isAbsolute = true := by rw [isAbsolute_normalize, hb]
      rw [join_absolute hb, join_absolute hb', normalize_normalize]
      simp
  | false =>
      have hb' : b.normalize.isAbsolute = false := by rw [isAbsolute_normalize, hb]
      have hnormal := normalize_join_relative_iff ha hb ha' (normalize_normalize a)
      have hresolved := normalize_join_relative_iff ha hb ha rfl
      refine ⟨by simpa using hnormal, fun _ => ?_⟩
      rw [resolve_relative hb, resolve_relative hb', eq_comm, hresolved]

theorem normalize_join_iff_project :
    (⟨"/project/./specs"⟩ : Path).isAbsolute = true ∧ (⟨"../tests/a/.."⟩ : Path).isAbsolute = false ∧
      (join ⟨"/project/./specs"⟩ ⟨"../tests/a/.."⟩).normalize =
        ((⟨"/project/./specs"⟩ : Path).normalize.join
          (⟨"../tests/a/.."⟩ : Path).normalize).normalize ∧
      resolve ⟨"/project/./specs"⟩ (⟨"../tests/a/.."⟩ : Path).normalize =
        resolve ⟨"/project/./specs"⟩ ⟨"../tests/a/.."⟩ :=
  have habsolute : (⟨"/project/./specs"⟩ : Path).isAbsolute = true := by decide
  have hrelative : (⟨"../tests/a/.."⟩ : Path).isAbsolute = false := by decide
  have halike : ClimbsAlike ⟨"/project/./specs"⟩ ⟨"../tests/a/.."⟩ := by decide
  ⟨habsolute, hrelative, (normalize_join_iff habsolute _).1.2 (.inr halike),
    ((normalize_join_iff habsolute _).2 hrelative).2 halike⟩

/-- Of two directories that a path climbs, its normal form keeps none, and so names another
file. -/
theorem normalize_climbs_less :
    (⟨"/a/b"⟩ : Path).isAbsolute = true ∧ (⟨"../../x"⟩ : Path).isAbsolute = false ∧
      (⟨"../../x"⟩ : Path).normalize = ⟨"x"⟩ ∧
      resolve ⟨"/a/b"⟩ ⟨"../../x"⟩ = ⟨"/x"⟩ ∧
      resolve ⟨"/a/b"⟩ (⟨"../../x"⟩ : Path).normalize = ⟨"/a/b/x"⟩ ∧
      (join ⟨"/a/b"⟩ ⟨"../../x"⟩).normalize ≠
        ((⟨"/a/b"⟩ : Path).normalize.join (⟨"../../x"⟩ : Path).normalize).normalize := by
  decide

end TraceExport.Path
