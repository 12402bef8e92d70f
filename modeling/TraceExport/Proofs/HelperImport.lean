import TraceExport.Export.TestFile
import TraceExport.Proofs.Normalization

/-!
The import of the helper module. The way between two resolved paths goes up to what they
share and down again, and where it is walked from the first it ends at the second
(`andThen_wayTo`). Written as an import, it is read as the same way, so that every test
finds the helper from the export directory it is written to (`resolve_helperImport`).
-/

namespace TraceExport.Export

open TraceExport.Path

/-! ### The way between two places -/

theorem commonLength_le (as bs : List Component) :
    commonLength as bs ≤ as.length ∧ commonLength as bs ≤ bs.length := by
  fun_induction commonLength as bs <;> simp_all

theorem take_commonLength (as bs : List Component) :
    as.take (commonLength as bs) = bs.take (commonLength as bs) := by
  fun_induction commonLength as bs <;> simp_all

/-- The way between two resolved places, by the number of components that they share below the
root. -/
theorem wayTo_plain (w v : Way) : ∃ shared ≤ w.up + w.down.length,
    min shared w.up = min shared v.up ∧
      w.down.take (shared - w.up) = v.down.take (shared - v.up) ∧
      wayTo (plain true w.up w.down) (plain true v.up v.down) =
        plain false (w.up + w.down.length - shared + (v.up - shared))
          (v.down.drop (shared - v.up)) := by
  refine ⟨commonLength (plain false w.up w.down) (plain false v.up v.down), ?_, ?_⟩
  · simpa [plain] using (commonLength_le (plain false w.up w.down) (plain false v.up v.down)).1
  · have htake := take_commonLength (plain false w.up w.down) (plain false v.up v.down)
    have hcommon : commonLength (plain true w.up w.down) (plain true v.up v.down) =
        commonLength (plain false w.up w.down) (plain false v.up v.down) + 1 := by
      rw [plain_true, plain_true, commonLength, if_pos rfl]
    generalize commonLength (plain false w.up w.down) (plain false v.up v.down) = shared at *
    rw [take_plain, take_plain, plain_inj] at htake
    obtain ⟨-, hup, hdown⟩ := htake
    refine ⟨hup, hdown, ?_⟩
    have hlength : (plain true w.up w.down).length - (shared + 1) =
        w.up + w.down.length - shared := by
      simp [plain]
    rw [wayTo, hcommon, hlength, plain_true v.up, List.drop_succ_cons, drop_plain,
      replicate_append_plain]

/-- The way from one resolved place to another ends there. What they share is neither left nor
entered again; of the parents above the root one is kept, or none. -/
theorem andThen_wayTo {w v : Way} (hw : w.up ≤ 1) (hv : v.up ≤ 1) :
    (w.andThen (way (wayTo (plain true w.up w.down) (plain true v.up v.down)))).up % 2 = v.up ∧
      (w.andThen (way (wayTo (plain true w.up w.down) (plain true v.up v.down)))).down =
        v.down := by
  obtain ⟨shared, hle, hmin, htake, hway⟩ := wayTo_plain w v
  have hkept : w.down.length - (w.up + w.down.length - shared + (v.up - shared)) =
      shared - w.up := by omega
  rw [hway, way_plain, Way.up_andThen, Way.down_andThen]
  dsimp only
  rw [hkept, htake, List.take_append_drop]
  exact ⟨by omega, rfl⟩

section

variable {p q : Path} (hp : p.isAbsolute = true) (hnormal : p.normalize = p)
  (hq : q.isAbsolute = true) (hnormal' : q.normalize = q)

include hp hnormal hq hnormal'

/-- The way between two normal paths is some parents, and then names. -/
theorem exists_wayTo_eq : ∃ up names, wayTo p.components q.components = plain false up names ∧
    ∀ name ∈ names, IsName name := by
  have hstart := (components_of_normal hnormal).1
  have hend := (components_of_normal hnormal').1
  rw [hp] at hstart
  rw [hq] at hend
  obtain ⟨shared, -, -, -, hway⟩ := wayTo_plain (way p.components) (way q.components)
  rw [← hstart, ← hend] at hway
  exact ⟨_, _, hway, fun name hname => isName_of_mem_way (List.mem_of_mem_drop hname)⟩

/-- Where the way between two normal paths is joined to the first, it leads to the second. -/
theorem normalize_join_wayTo {text : String} (htext : (⟨text⟩ : Path).isAbsolute = false)
    (hread : named text.toList = wayTo p.components q.components) :
    (p.join ⟨text⟩).normalize = q := by
  obtain ⟨hstart, hup⟩ := components_of_normal hnormal
  obtain ⟨hend, hup'⟩ := components_of_normal hnormal'
  rw [hp] at hstart
  rw [hq] at hend
  obtain ⟨hclimbs, hdown⟩ := andThen_wayTo hup hup'
  rw [← hstart, ← hend, ← hread, way_named htext, ← way_join hp htext] at hclimbs hdown
  rw [← hnormal', normalize_eq_iff, isAbsolute_join hp, hq, hclimbs, Nat.mod_eq_of_lt (by omega)]
  exact ⟨rfl, rfl, hdown⟩

end

/-! ### The import -/

theorem helperImport_starts (cwd dir : Path) :
    "./".toList <+: (helperImport cwd dir).toList ∨
      "../".toList <+: (helperImport cwd dir).toList := by
  unfold helperImport
  simp only
  split
  · rename_i hparent
    obtain ⟨rest, hrest⟩ := Option.isSome_iff_exists.1 hparent
    exact .inr ⟨rest, (Text.dropPrefix?_eq_some.1 hrest).symm⟩
  · exact .inl ⟨_, String.toList_append.symm⟩

theorem isAbsolute_helperImport (cwd dir : Path) :
    (⟨helperImport cwd dir⟩ : Path).isAbsolute = false := by
  rw [isAbsolute_eq, decide_eq_false_iff_not]
  rcases helperImport_starts cwd dir with ⟨rest, hrest⟩ | ⟨rest, hrest⟩ <;> simp [← hrest]

/-- The import is read as the way that it was written from. -/
theorem named_helperImport {cwd : Path} (hcwd : cwd.isAbsolute = true) (dir : Path) :
    named (helperImport cwd dir).toList =
      wayTo (resolve cwd dir).components (resolve cwd helperModule).components := by
  obtain ⟨up, names, hway, hnames⟩ := exists_wayTo_eq (isAbsolute_resolve hcwd dir)
    (normalize_resolve cwd dir) (isAbsolute_resolve hcwd helperModule)
    (normalize_resolve cwd helperModule)
  have htext : (ofComponents (plain false up names)).slashText.toList =
      Text.join ['/'] (plainTexts up names) := by
    rw [slashText_ofComponents_plain hnames, slashed_plain]
  unfold helperImport
  simp only [hway]
  split
  · rw [htext, named_join_plainTexts hnames]
  · -- The dot in front stands for nothing.
    have hdot : named ['.'] = [] := by decide
    have hstart : ("./" ++ (ofComponents (plain false up names)).slashText).toList =
        ['.'] ++ '/' :: (ofComponents (plain false up names)).slashText.toList := by simp
    rw [hstart, named_append, hdot, htext, named_join_plainTexts hnames, List.nil_append]

/-- The import of the helper is a relative one, and leads from the export directory to the
helper, wherever that directory is. -/
theorem resolve_helperImport {cwd : Path} (hcwd : cwd.isAbsolute = true) (dir : Path) :
    ("./".toList <+: (helperImport cwd dir).toList ∨
      "../".toList <+: (helperImport cwd dir).toList) ∧
      ((resolve cwd dir).join ⟨helperImport cwd dir⟩).normalize = resolve cwd helperModule := by
  refine ⟨helperImport_starts cwd dir, ?_⟩
  exact normalize_join_wayTo (isAbsolute_resolve hcwd dir) (normalize_resolve cwd dir)
    (isAbsolute_resolve hcwd helperModule) (normalize_resolve cwd helperModule)
    (isAbsolute_helperImport cwd dir) (named_helperImport hcwd dir)

theorem resolve_helperImport_outside :
    (⟨"/work/project"⟩ : Path).isAbsolute = true ∧
      helperImport ⟨"/work/project"⟩ ⟨"../e2e/./out"⟩ = "../../project/tests/helpers/autoqa-env" ∧
      ("./".toList <+: (helperImport ⟨"/work/project"⟩ ⟨"../e2e/./out"⟩).toList ∨
        "../".toList <+: (helperImport ⟨"/work/project"⟩ ⟨"../e2e/./out"⟩).toList) ∧
      ((resolve ⟨"/work/project"⟩ ⟨"../e2e/./out"⟩).join
        ⟨helperImport ⟨"/work/project"⟩ ⟨"../e2e/./out"⟩⟩).normalize =
        resolve ⟨"/work/project"⟩ helperModule :=
  have hcwd : (⟨"/work/project"⟩ : Path).isAbsolute = true := by decide
  ⟨hcwd, by decide +kernel, resolve_helperImport hcwd ⟨"../e2e/./out"⟩⟩

end TraceExport.Export
