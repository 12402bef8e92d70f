import TraceExport.Trace.Codec
import Mathlib.Data.List.Basic

/-!
Traces that grow at their end. A text that ends with a line is cut into its lines apart from
what follows (`lines_append`), and lines are read one after the other up to the first that is
malformed (`readLines_eq_error`). So what is appended to a trace changes neither the records in
front nor a fault that is found there, and its own faults are counted on from there
(`readRecords_append`).
-/

namespace TraceExport.Text

/-- A text that is empty or ends with a line feed. -/
def EndsLine (s : List Char) : Prop := s = [] ∨ s.getLast? = some '\n'

theorem EndsLine.tail {c : Char} {s : List Char} (h : EndsLine (c :: s)) : EndsLine s := by
  cases s with
  | nil => exact .inl rfl
  | cons d s => exact .inr (by simpa [EndsLine] using h)

theorem consFirst_append {pieces : List (List Char)} (h : pieces ≠ []) (c : Char)
    (rest : List (List Char)) : consFirst c (pieces ++ rest) = consFirst c pieces ++ rest := by
  obtain ⟨piece, pieces, rfl⟩ := List.exists_cons_of_ne_nil h
  rfl

theorem physicalLines_ne_nil {s : List Char} (h : s ≠ []) : physicalLines s ≠ [] := by
  intro hnone
  have hflat := flatten_physicalLines s
  rw [hnone] at hflat
  exact h hflat.symm

/-- The text of an unfinished line is not empty. -/
theorem EndsLine.tail_ne_nil {c : Char} {s : List Char} (h : EndsLine (c :: s)) (hc : c ≠ '\n') :
    s ≠ [] := by
  rintro rfl
  simp [EndsLine, hc] at h

theorem physicalLines_append {s : List Char} (h : EndsLine s) (t : List Char) :
    physicalLines (s ++ t) = physicalLines s ++ physicalLines t := by
  induction s with
  | nil => rfl
  | cons c s ih =>
      rw [List.cons_append, physicalLines, physicalLines, ih h.tail]
      split
      · rfl
      · rename_i hc
        exact consFirst_append (physicalLines_ne_nil (h.tail_ne_nil hc)) c _

theorem lines_append {s : List Char} (h : EndsLine s) (t : List Char) :
    lines (s ++ t) = lines s ++ lines t := by
  rw [lines, physicalLines_append h, List.map_append, lines, lines]

/-- A text has as many lines as line feeds. -/
theorem length_lines {s : List Char} (h : EndsLine s) : (lines s).length = s.count '\n' := by
  rw [lines, List.length_map]
  induction s with
  | nil => rfl
  | cons c s ih =>
      rw [physicalLines]
      split
      · rename_i hc
        simp [hc, ih h.tail]
      · rename_i hc
        obtain ⟨line, rest, hlines⟩ :=
          List.exists_cons_of_ne_nil (physicalLines_ne_nil (h.tail_ne_nil hc))
        have hrest := ih h.tail
        rw [List.count_cons_of_ne (by simpa using hc), ← hrest, hlines]
        rfl

end TraceExport.Text

namespace TraceExport.Trace

open Text

/-! ### Lines one after the other -/

/-- A line that is blank or holds a record. -/
def IsSound (line : List Char) : Prop :=
  line.all isBlank ∨ ∃ record, Record.read (String.ofList line) = .ok record

/-- A line that is not blank and holds no record, for a reason. -/
def IsMalformed (line : List Char) (reason : String) : Prop :=
  line.all isBlank = false ∧
    ∃ fault, Record.read (String.ofList line) = .error fault ∧ reason = fault.message

theorem IsMalformed.not_isSound {line : List Char} {reason : String} (h : IsMalformed line reason) :
    ¬ IsSound line := by
  obtain ⟨hblank, fault, hread, -⟩ := h
  rintro (hall | ⟨record, hok⟩)
  · simp [hblank] at hall
  · simp [hread] at hok

/-- How one line is read: passed over, taken for a fault, or as a record. -/
theorem readLines_cons (number : Nat) (line : List Char) (rest : List (List Char)) :
    line.all isBlank ∧ readLines number (line :: rest) = readLines (number + 1) rest ∨
      (∃ reason, IsMalformed line reason ∧
        readLines number (line :: rest) = .error ⟨number, reason⟩) ∨
      line.all isBlank = false ∧ ∃ record, Record.read (String.ofList line) = .ok record ∧
        readLines number (line :: rest) = (readLines (number + 1) rest).map (record :: ·) := by
  by_cases hblank : line.all isBlank
  · exact .inl ⟨hblank, by rw [readLines, if_pos hblank]⟩
  · have hnot : line.all isBlank = false := by simpa using hblank
    cases hread : Record.read (String.ofList line) with
    | error fault =>
        refine .inr (.inl ⟨fault.message, ⟨hnot, fault, hread, rfl⟩, ?_⟩)
        rw [readLines, if_neg hblank, hread]
    | ok record =>
        refine .inr (.inr ⟨hnot, record, rfl, ?_⟩)
        rw [readLines, if_neg hblank, hread]

/-- Lines are numbered on from where they start. -/
theorem readLines_add (offset number : Nat) (ls : List (List Char)) :
    readLines (offset + number) ls =
      (readLines number ls).mapError fun m => ⟨offset + m.line, m.reason⟩ := by
  induction ls generalizing number with
  | nil => rfl
  | cons line rest ih =>
      have hrest := ih (number + 1)
      rw [← Nat.add_assoc] at hrest
      rw [readLines, readLines]
      split
      · exact hrest
      · split
        · rfl
        · rw [hrest]
          cases readLines (number + 1) rest <;> rfl

theorem readLines_append (number : Nat) (front back : List (List Char)) :
    readLines number (front ++ back) =
      match readLines number front with
      | .error m => .error m
      | .ok records => (readLines (number + front.length) back).map (records ++ ·) := by
  induction front generalizing number with
  | nil =>
      rw [List.nil_append, readLines, List.length_nil, Nat.add_zero]
      cases readLines number back <;> rfl
  | cons line rest ih =>
      have hlength : number + (line :: rest).length = number + 1 + rest.length := by
        rw [List.length_cons]
        omega
      rw [List.cons_append, readLines, readLines, ih, hlength]
      -- A blank line only counts, a fault hides the rest, and a record goes in front of the others.
      split
      · rfl
      · split
        · rfl
        · cases readLines (number + 1) rest with
          | error m => rfl
          | ok records => cases readLines (number + 1 + rest.length) back <;> rfl

/-- The fault of the first malformed line, where lines are counted from a number. -/
def IsFault (number : Nat) (ls : List (List Char)) (m : Malformed) : Prop :=
  ∃ front line back, ls = front ++ line :: back ∧ (∀ sound ∈ front, IsSound sound) ∧
    IsMalformed line m.reason ∧ m.line = number + front.length

theorem isFault_cons_of_isSound {first : List Char} (hsound : IsSound first) {number : Nat}
    {rest : List (List Char)} {m : Malformed} :
    IsFault number (first :: rest) m ↔ IsFault (number + 1) rest m := by
  constructor
  · rintro ⟨front, line, back, h, hfront, hline, hnumber⟩
    cases front with
    | nil =>
        obtain ⟨rfl, -⟩ := List.cons.inj h
        exact absurd hsound hline.not_isSound
    | cons sound front =>
        obtain ⟨-, rfl⟩ := List.cons.inj h
        rw [List.length_cons] at hnumber
        exact ⟨front, line, back, rfl, (List.forall_mem_cons.1 hfront).2, hline, by omega⟩
  · rintro ⟨front, line, back, rfl, hfront, hline, hnumber⟩
    refine ⟨first :: front, line, back, rfl, List.forall_mem_cons.2 ⟨hsound, hfront⟩, hline, ?_⟩
    rw [hnumber, List.length_cons]
    omega

theorem IsMalformed.unique {line : List Char} {reason reason' : String}
    (h : IsMalformed line reason) (h' : IsMalformed line reason') : reason = reason' := by
  obtain ⟨-, fault, hread, rfl⟩ := h
  obtain ⟨-, fault', hread', rfl⟩ := h'
  rw [hread] at hread'
  cases hread'
  rfl

theorem isFault_cons_of_isMalformed {first : List Char} {reason : String}
    (hfault : IsMalformed first reason) {number : Nat} {rest : List (List Char)} {m : Malformed} :
    IsFault number (first :: rest) m ↔ m = ⟨number, reason⟩ := by
  constructor
  · rintro ⟨front, line, back, h, hfront, hline, hnumber⟩
    cases front with
    | nil =>
        obtain ⟨rfl, -⟩ := List.cons.inj h
        obtain ⟨line, reason'⟩ := m
        obtain rfl : line = number := hnumber
        rw [hfault.unique hline]
    | cons sound front =>
        obtain ⟨rfl, -⟩ := List.cons.inj h
        exact absurd ((List.forall_mem_cons.1 hfront).1) hfault.not_isSound
  · rintro rfl
    exact ⟨[], first, rest, rfl, by simp, hfault, rfl⟩

theorem readLines_eq_error {number : Nat} {ls : List (List Char)} {m : Malformed} :
    readLines number ls = .error m ↔ IsFault number ls m := by
  induction ls generalizing number with
  | nil => simp [readLines, IsFault]
  | cons first rest ih =>
      rcases readLines_cons number first rest with
        ⟨hblank, heq⟩ | ⟨reason, hfault, heq⟩ | ⟨-, record, hread, heq⟩
      · rw [heq, ih, isFault_cons_of_isSound (.inl hblank)]
      · rw [heq, isFault_cons_of_isMalformed hfault, Except.error.injEq, eq_comm]
      · rw [heq, isFault_cons_of_isSound (.inr ⟨record, hread⟩), ← ih]
        cases readLines (number + 1) rest <;> simp [Except.map]

/-- The records are those of the lines that are not blank. -/
theorem readLines_eq_ok {number : Nat} {ls : List (List Char)} {records : List Record} :
    readLines number ls = .ok records ↔
      (ls.filter (!·.all isBlank)).map (fun line => Record.read (String.ofList line)) =
        records.map .ok := by
  induction ls generalizing number records with
  | nil => cases records <;> simp [readLines]
  | cons first rest ih =>
      rcases readLines_cons number first rest with
        ⟨hblank, heq⟩ | ⟨reason, ⟨hblank, fault, hread, -⟩, heq⟩ | ⟨hblank, record, hread, heq⟩
      · rw [heq, ih, List.filter_cons_of_neg (by simp [hblank])]
      · rw [heq, List.filter_cons_of_pos (by simp [hblank]), List.map_cons, hread]
        cases records <;> simp
      · rw [heq, List.filter_cons_of_pos (by simp [hblank]), List.map_cons, hread]
        cases records with
        | nil => cases readLines (number + 1) rest <;> simp [Except.map]
        | cons first' records =>
            have hrest := @ih (number + 1) records
            rw [List.map_cons, List.cons.injEq, ← hrest]
            cases readLines (number + 1) rest <;> simp [Except.map]

/-! ### Traces -/

/-- A trace that ends with a line is read apart from what is appended to it. The first fault
counts, with the number of its line; and without a fault there are the records of both. In
every text a fault is that of the first line that is not blank and holds no record, and the
records are those of all lines that are not blank. -/
theorem readRecords_append {a : String} (ha : EndsLine a.toList) (b : String) :
    readRecords (a ++ b) =
        (match readRecords a, readRecords b with
        | .error m, _ => .error m
        | .ok _, .error m => .error ⟨a.toList.count '\n' + m.line, m.reason⟩
        | .ok records, .ok more => .ok (records ++ more)) ∧
      (∀ text m, readRecords text = .error m ↔
        ∃ front line back, lines text.toList = front ++ line :: back ∧
          (∀ sound ∈ front, IsSound sound) ∧ IsMalformed line m.reason ∧
            m.line = front.length + 1) ∧
      ∀ text records, readRecords text = .ok records ↔
        ((lines text.toList).filter (!·.all isBlank)).map
          (fun line => Record.read (String.ofList line)) = records.map .ok := by
  refine ⟨?_, fun text m => ?_, fun text records => readLines_eq_ok⟩
  · have hcount : 1 + (lines a.toList).length = a.toList.count '\n' + 1 := by
      rw [length_lines ha, Nat.add_comm]
    simp only [readRecords, String.toList_append, lines_append ha, readLines_append, hcount,
      readLines_add]
    cases readLines 1 (lines a.toList) with
    | error m => rfl
    | ok records => cases readLines 1 (lines b.toList) <;> rfl
  · simp only [readRecords, readLines_eq_error, IsFault, Nat.add_comm 1]

/-- A record, and a blank line behind it. -/
def scrollLines : String :=
  "\x7b\"toolName\":\"scroll\",\"outcome\":\x7b\"ok\":true\x7d\x7d\n \r\n"

theorem readRecords_append_scroll :
    EndsLine scrollLines.toList ∧ (∃ records, readRecords scrollLines = .ok records) ∧
      readRecords "\nscroll\n" = .error ⟨2, "not a JSON value"⟩ ∧
      readRecords (scrollLines ++ "\nscroll\n") = .error ⟨4, "not a JSON value"⟩ := by
  have hends : EndsLine scrollLines.toList := .inr (by decide)
  have hfirst : ∃ records, readRecords scrollLines = .ok records := by
    have hsome : (readRecords scrollLines).toOption.isSome := by decide +kernel
    cases hread : readRecords scrollLines with
    | error m => simp [hread, Except.toOption] at hsome
    | ok records => exact ⟨records, rfl⟩
  have hjson : Json.parse? "scroll" = none := Option.isNone_iff_eq_none.1 (by decide +kernel)
  have hread : Record.read "scroll" = .error .notJson := by rw [Record.read, hjson]
  have hsecond : readRecords "\nscroll\n" = .error ⟨2, "not a JSON value"⟩ :=
    readLines_eq_error.2 ⟨[[]], "scroll".toList, [], by decide, by simp [IsSound],
      ⟨by decide, .notJson, hread, rfl⟩, rfl⟩
  refine ⟨hends, hfirst, hsecond, ?_⟩
  obtain ⟨records, hrecords⟩ := hfirst
  rw [(readRecords_append hends "\nscroll\n").1, hrecords, hsecond]
  rfl

end TraceExport.Trace
