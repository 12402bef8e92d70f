import TraceExport.Path.Normal
import Mathlib.Data.List.Basic

/-!
What `.` and `..` come to. The components of a path are a way: so many directories up,
and then down along some names. Ways that are walked one after the other are a way again
(`way_append`). Resolving a path walks its way, but of the directories above the start it
keeps one or none, since a `..` that is kept is undone by the next one (`settled_eq`).
-/

namespace TraceExport.Path

/-- A way from one directory to another: some directories up, then down along names. -/
@[ext] structure Way where
  up : Nat
  down : List String
deriving DecidableEq, Repr

namespace Way

/-- The way on from where another ends. Going up takes back names first. -/
def andThen (w v : Way) : Way where
  up := w.up + (v.up - w.down.length)
  down := w.down.take (w.down.length - v.up) ++ v.down

@[simp] theorem up_andThen (w v : Way) : (w.andThen v).up = w.up + (v.up - w.down.length) := rfl

@[simp] theorem down_andThen (w v : Way) :
    (w.andThen v).down = w.down.take (w.down.length - v.up) ++ v.down := rfl

@[simp] theorem nil_andThen (w : Way) : andThen ⟨0, []⟩ w = w := by ext <;> simp

theorem andThen_assoc (w₁ w₂ w₃ : Way) :
    (w₁.andThen w₂).andThen w₃ = w₁.andThen (w₂.andThen w₃) := by
  ext1
  · simp only [up_andThen, down_andThen, List.length_append, List.length_take]
    omega
  · simp only [up_andThen, down_andThen, List.length_append, List.length_take, List.take_append,
      List.take_take, List.append_assoc]
    congr 2
    · omega
    · congr 1
      omega

end Way

/-- What one component adds to a way. -/
def stepOf : Component → Way
  | .parent => ⟨1, []⟩
  | .normal name => ⟨0, [name]⟩
  | _ => ⟨0, []⟩

/-- Where components lead from where they start. -/
def way : List Component → Way
  | [] => ⟨0, []⟩
  | c :: cs => (stepOf c).andThen (way cs)

theorem way_append (cs ds : List Component) : way (cs ++ ds) = (way cs).andThen (way ds) := by
  induction cs with
  | nil => simp [way]
  | cons c cs ih => rw [List.cons_append, way, way, ih, Way.andThen_assoc]

theorem mem_of_mem_way {cs : List Component} {name : String} (h : name ∈ (way cs).down) :
    .normal name ∈ cs := by
  induction cs with
  | nil => simp [way] at h
  | cons c cs ih =>
      rw [way, Way.down_andThen, List.mem_append] at h
      rcases h with h | h
      · cases c with
        | normal first =>
            obtain rfl : name = first := by simpa [stepOf] using List.mem_of_mem_take h
            exact List.mem_cons_self
        | _ => simp [stepOf] at h
      · exact List.mem_cons_of_mem c (ih h)

/-! ### Resolved components -/

/-- What is left of components once `.` and `..` are resolved: the root, the parents
that found nothing to undo, and names. -/
def plain (absolute : Bool) (up : Nat) (names : List String) : List Component :=
  (if absolute then [.root] else []) ++ List.replicate up .parent ++ names.map .normal

theorem plain_concat (absolute : Bool) (up : Nat) (names : List String) (name : String) :
    plain absolute up (names ++ [name]) = plain absolute up names ++ [.normal name] := by
  simp [plain]

theorem plain_succ (absolute : Bool) (up : Nat) :
    plain absolute (up + 1) [] = plain absolute up [] ++ [.parent] := by
  simp [plain, List.replicate_succ']

@[simp] theorem way_plain (absolute : Bool) (up : Nat) (names : List String) :
    way (plain absolute up names) = ⟨up, names⟩ := by
  have hup : way (List.replicate up .parent) = ⟨up, []⟩ := by
    induction up with
    | zero => rfl
    | succ up ih =>
        rw [List.replicate_succ, way, ih]
        simp [stepOf, Way.andThen, Nat.add_comm]
  have hnames : way (names.map .normal) = ⟨0, names⟩ := by
    induction names with
    | nil => rfl
    | cons name names ih =>
        rw [List.map_cons, way, ih]
        simp [stepOf, Way.andThen]
  have hroot : way (if absolute then [.root] else []) = ⟨0, []⟩ := by cases absolute <;> rfl
  rw [plain, way_append, way_append, hroot, hup, hnames]
  simp [Way.andThen]

theorem root_mem_plain {absolute : Bool} {up : Nat} {names : List String} :
    .root ∈ plain absolute up names ↔ absolute = true := by
  cases absolute <;> simp [plain, List.mem_replicate]

theorem plain_inj {absolute absolute' : Bool} {up up' : Nat} {names names' : List String} :
    plain absolute up names = plain absolute' up' names' ↔
      absolute = absolute' ∧ up = up' ∧ names = names' := by
  constructor
  · intro h
    have hroot : absolute = true ↔ absolute' = true := by
      rw [← @root_mem_plain absolute up names, h, root_mem_plain]
    have hway := congrArg way h
    rw [way_plain, way_plain, Way.mk.injEq] at hway
    exact ⟨Bool.eq_iff_iff.2 hroot, hway⟩
  · rintro ⟨rfl, rfl, rfl⟩
    rfl

theorem plain_true (up : Nat) (names : List String) :
    plain true up names = .root :: plain false up names := rfl

theorem replicate_append_plain (n up : Nat) (names : List String) :
    List.replicate n .parent ++ plain false up names = plain false (n + up) names := by
  simp [plain, ← List.append_assoc, List.replicate_append_replicate]

theorem take_plain (k up : Nat) (names : List String) :
    (plain false up names).take k = plain false (min k up) (names.take (k - up)) := by
  simp [plain, List.take_append, List.take_replicate, List.map_take]

theorem drop_plain (k up : Nat) (names : List String) :
    (plain false up names).drop k = plain false (up - k) (names.drop (k - up)) := by
  simp [plain, List.drop_append, List.drop_replicate, List.map_drop]

/-- What stands at the end of resolved components is resolved. It is below the root, if
anything is in front of it. -/
theorem exists_eq_plain_of_append {absolute : Bool} {up : Nat} {names : List String}
    {front rest : List Component} (h : plain absolute up names = front ++ rest) :
    ∃ absolute' up' names', rest = plain absolute' up' names' ∧ names' ⊆ names ∧
      (absolute' = true ↔ absolute = true ∧ front = []) := by
  have hrest : rest = (plain absolute up names).drop front.length := by rw [h, List.drop_left]
  cases absolute with
  | false => exact ⟨false, _, _, hrest.trans (drop_plain _ _ _), List.drop_subset _ _, by simp⟩
  | true =>
      cases front with
      | nil => exact ⟨true, up, names, hrest, List.Subset.refl _, by simp⟩
      | cons c front =>
          rw [plain_true, List.length_cons, List.drop_succ_cons, drop_plain] at hrest
          exact ⟨false, _, _, hrest, List.drop_subset _ _, by simp⟩

/-- One component takes a resolved path on by its step. -/
theorem settle_step {stack : List Component} {absolute : Bool} {w : Way}
    (hstack : stack.reverse = plain absolute (w.up % 2) w.down) {c : Component} (hc : c ≠ .root) :
    (settle stack c).reverse =
      plain absolute ((w.andThen (stepOf c)).up % 2) (w.andThen (stepOf c)).down := by
  cases c with
  | root => exact absurd rfl hc
  | current => simpa [stepOf, settle] using hstack
  | normal name => simp [stepOf, settle, plain_concat, hstack]
  | parent =>
      obtain ⟨up, names⟩ := w
      rcases List.eq_nil_or_concat names with rfl | ⟨names, name, rfl⟩
      · rcases Nat.mod_two_eq_zero_or_one up with heven | hodd
        · -- There is nothing to undo, so the parent is kept.
          have hnext : (up + 1) % 2 = 1 := by omega
          simp only [heven] at hstack
          cases absolute with
          | false =>
              obtain rfl : stack = [] := by simpa [plain] using hstack
              simp [stepOf, hnext]
              rfl
          | true =>
              obtain rfl : stack = [.root] := by
                simpa [plain] using congrArg List.reverse hstack
              simp [stepOf, hnext]
              rfl
        · -- The parent that was kept is undone.
          have hnext : (up + 1) % 2 = 0 := by omega
          simp only [hodd] at hstack
          rw [plain_succ absolute 0] at hstack
          obtain rfl : stack = .parent :: (plain absolute 0 []).reverse := by
            simpa using congrArg List.reverse hstack
          simp [stepOf, settle, hnext]
      · rw [List.concat_eq_append] at hstack ⊢
        rw [plain_concat] at hstack
        obtain rfl : stack = .normal name :: (plain absolute (up % 2) names).reverse := by
          simpa using congrArg List.reverse hstack
        simp [stepOf, settle]

theorem foldl_settle {cs stack : List Component} {absolute : Bool} {w : Way}
    (hstack : stack.reverse = plain absolute (w.up % 2) w.down) (hcs : .root ∉ cs) :
    (cs.foldl settle stack).reverse =
      plain absolute ((w.andThen (way cs)).up % 2) (w.andThen (way cs)).down := by
  induction cs generalizing stack w with
  | nil => simpa [way] using hstack
  | cons c cs ih =>
      obtain ⟨hc, hcs⟩ : c ≠ .root ∧ .root ∉ cs := by simpa [eq_comm] using hcs
      rw [List.foldl_cons, way, ← Way.andThen_assoc]
      exact ih (settle_step hstack hc) hcs

/-- Resolving leaves the names that a way goes down, and of the directories that it goes
up at most one. -/
theorem settled_eq (absolute : Bool) {cs : List Component} (hcs : .root ∉ cs) :
    settled ((if absolute then [.root] else []) ++ cs) =
      plain absolute ((way cs).up % 2) (way cs).down := by
  have hstart : (List.foldl settle [] (if absolute then [.root] else [])).reverse =
      plain absolute ((⟨0, []⟩ : Way).up % 2) (⟨0, []⟩ : Way).down := by
    cases absolute <;> rfl
  rw [settled, List.foldl_append, foldl_settle hstart hcs, Way.nil_andThen]

end TraceExport.Path
