import TraceExport.Proofs.Lexeme
import TraceExport.Url.Punycode
import Mathlib.Tactic.Ring

/-!
Labels outside ASCII are read as they were written (`decode?_encode`). Writer and reader go over the
same places: the writer counts the places that it passes, and from the count the reader finds where
the next character is inserted. What the two agree on between two characters is `Agrees`.
-/

namespace TraceExport.Url.Punycode

/-! ### Numbers -/

theorem digitValue?_digit : ∀ n < 36, digitValue? (digit n) = some n := by decide

/-- The last digit of a number. -/
theorem digitValue?_last {place bias n : Nat} (h : n < threshold place bias) :
    digitValue? (digit n) = some n :=
  digitValue?_digit n (h.trans (threshold_lt place bias))

/-- A digit that more digits follow. -/
theorem digitValue?_more (place bias n : Nat) :
    let limit := threshold place bias
    digitValue? (digit (limit + (n - limit) % (base - limit))) =
      some (limit + (n - limit) % (base - limit)) := by
  intro limit
  have hlimit : limit < base := threshold_lt place bias
  have hmod := Nat.mod_lt (n - limit) (Nat.sub_pos_of_lt hlimit)
  exact digitValue?_digit _ (Nat.add_lt_of_lt_sub' hmod)

/-- A number is read as it was written, whatever follows it. -/
theorem readNumber?_digits (place bias n weight value : Nat) (t : List Char) :
    readNumber? bias place weight value (digits place bias n ++ t) =
      some (value + n * weight, t) := by
  fun_induction digits place bias n generalizing weight value with
  | case1 place n limit hlast =>
      rw [List.singleton_append, readNumber?, digitValue?_last hlast]
      simp only [Option.bind_eq_bind, Option.bind_some]
      exact if_pos hlast
  | case2 place n limit hmore ih =>
      have hsplit := Nat.mod_add_div (n - limit) (base - limit)
      rw [List.cons_append, readNumber?, digitValue?_more]
      simp only [Option.bind_eq_bind, Option.bind_some]
      rw [if_neg (Nat.not_lt.2 (Nat.le_add_right _ _)), ih]
      congr 2
      calc value + (limit + (n - limit) % (base - limit)) * weight +
            (n - limit) / (base - limit) * (weight * (base - limit))
          = value + (limit + ((n - limit) % (base - limit) +
              (base - limit) * ((n - limit) / (base - limit)))) * weight := by ring
        _ = value + n * weight := by rw [hsplit, Nat.add_sub_cancel' (Nat.not_lt.1 hmore)]

theorem isSome_digitValue?_of_mem_digits {place bias n : Nat} :
    ∀ c ∈ digits place bias n, (digitValue? c).isSome := by
  fun_induction digits place bias n with
  | case1 place n limit hlast => simp [digitValue?_last hlast]
  | case2 place n limit hmore ih =>
      refine List.forall_mem_cons.2 ⟨?_, ih⟩
      rw [digitValue?_more]
      rfl

theorem digits_ne_nil (place bias n : Nat) : digits place bias n ≠ [] := by
  rw [digits]
  split <;> simp

/-! ### Reading -/

/-- The state of a reader: the code point it has come to, the place behind the last character
inserted, the bias, and the characters placed so far. -/
structure Reader where
  point : Nat
  index : Nat
  bias : Nat
  placed : List Char

namespace Reader

def read? (r : Reader) (fuel : Nat) (s : List Char) : Option (List Char) :=
  insertAll? fuel r.point r.index r.bias r.placed s

/-- Some digits take a reader from one state to another. -/
def Goes (r : Reader) (s : List Char) (r' : Reader) : Prop :=
  (∀ c ∈ s, (digitValue? c).isSome) ∧
    ∃ numbers ≤ s.length, ∀ fuel t, r.read? (fuel + numbers) (s ++ t) = r'.read? fuel t

theorem Goes.refl (r : Reader) : r.Goes [] r := ⟨by simp, 0, le_refl _, fun _ _ => rfl⟩

theorem Goes.trans {r r' r'' : Reader} {s s' : List Char} (h : r.Goes s r') (h' : r'.Goes s' r'') :
    r.Goes (s ++ s') r'' := by
  obtain ⟨hdigits, n, hn, hread⟩ := h
  obtain ⟨hdigits', n', hn', hread'⟩ := h'
  have hlength : n' + n ≤ (s ++ s').length := by
    rw [List.length_append]
    omega
  refine ⟨List.forall_mem_append.2 ⟨hdigits, hdigits'⟩, n' + n, hlength, fun fuel t => ?_⟩
  rw [List.append_assoc, ← Nat.add_assoc, hread, hread']

/-- A number tells how many places there are from the last character to the next one. -/
theorem goes_digits (r : Reader) {delta next position : Nat}
    (hnext : next.isValidChar) (hposition : position ≤ r.placed.length)
    (hdelta : r.point * (r.placed.length + 1) + r.index + delta =
      next * (r.placed.length + 1) + position) (hpoint : r.point ≤ next) :
    r.Goes (digits base r.bias delta) {
      point := next
      index := position + 1
      bias := adapt delta (r.placed.length + 1) (r.point == initialPoint && r.index == 0)
      placed := r.placed.take position ++ Char.ofNat next :: r.placed.drop position } := by
  have htotal : r.index + delta = position + (r.placed.length + 1) * (next - r.point) := by
    obtain ⟨k, rfl⟩ := Nat.exists_eq_add_of_le hpoint
    rw [Nat.add_sub_cancel_left]
    have hexpand : (r.point + k) * (r.placed.length + 1) =
        r.point * (r.placed.length + 1) + (r.placed.length + 1) * k := by ring
    omega
  have hlt : position < r.placed.length + 1 := Nat.lt_succ_of_le hposition
  have hdiv : (r.index + delta) / (r.placed.length + 1) = next - r.point := by
    rw [htotal, Nat.add_mul_div_left _ _ (Nat.succ_pos _), Nat.div_eq_of_lt hlt, Nat.zero_add]
  have hmod : (r.index + delta) % (r.placed.length + 1) = position := by
    rw [htotal, Nat.add_mul_mod_self_left, Nat.mod_eq_of_lt hlt]
  have hnumber := fun t => readNumber?_digits base r.bias delta 1 0 t
  refine ⟨isSome_digitValue?_of_mem_digits, 1, List.length_pos_iff.2 (digits_ne_nil _ _ _),
    fun fuel t => ?_⟩
  rw [read?, insertAll?, hnumber]
  · simp only [Option.bind_eq_bind, Option.bind_some, Nat.zero_add, Nat.mul_one, hdiv, hmod,
      Nat.add_sub_cancel' hpoint, if_pos hnext]
    rfl
  · simp [digits_ne_nil]

end Reader

/-! ### Writing -/

/-- What writer and reader agree on when the writer is at the code point `next` and has gone over
`before` on its way through a label: which characters are placed, and where the writer is. -/
structure Agrees (basic : Nat) (before after : List Char) (next : Nat) (w : Writer) (r : Reader) :
    Prop where
  point : w.point = next
  behind : r.point ≤ next
  placed : r.placed = before.filter (·.toNat ≤ next) ++ after.filter (·.toNat < next)
  count : w.placed = r.placed.length
  bias : w.bias = r.bias
  delta : r.point * (r.placed.length + 1) + r.index + w.delta =
    next * (r.placed.length + 1) + (before.filter (·.toNat ≤ next)).length
  first : (w.placed == basic) = (r.point == initialPoint && r.index == 0)
  basics : basic ≤ w.placed

namespace Agrees

variable {basic next : Nat} {before after : List Char} {w : Writer} {r : Reader}

/-- A character that has been placed: its place is counted. -/
theorem countPlace {c : Char} (h : Agrees basic before (c :: after) next w r)
    (hlt : c.toNat < next) :
    Agrees basic (before ++ [c]) after next { w with delta := w.delta + 1 } r := by
  have hdelta := h.delta
  refine { h with placed := ?_, delta := ?_ }
  · simp [h.placed, hlt, hlt.le]
  · simp only [List.filter_append, List.length_append, List.filter_cons_of_pos,
      decide_eq_true_eq, hlt.le, List.filter_nil, List.length_singleton]
    omega

/-- A character whose turn is still to come. -/
theorem leave {c : Char} (h : Agrees basic before (c :: after) next w r) (hgt : next < c.toNat) :
    Agrees basic (before ++ [c]) after next w r := by
  refine { h with placed := ?_, delta := ?_ }
  · simp [h.placed, hgt.not_ge, hgt.not_gt]
  · simpa [hgt.not_ge] using h.delta

/-- A character whose turn has come: the number that leads to its place is written. -/
theorem write {c : Char} (h : Agrees basic before (c :: after) next w r) (heq : c.toNat = next) :
    ∃ r', r.Goes (digits base w.bias w.delta) r' ∧
      Agrees basic (before ++ [c]) after next { w with
        output := w.output ++ digits base w.bias w.delta
        bias := adapt w.delta (w.placed + 1) (w.placed == basic)
        delta := 0
        placed := w.placed + 1 } r' := by
  have hplaced := h.placed
  have hsmall : (before.filter (·.toNat ≤ next)).length ≤ r.placed.length := by
    rw [hplaced, List.length_append]
    exact Nat.le_add_right _ _
  have hvalid : next.isValidChar := heq ▸ c.valid
  refine ⟨_, h.bias ▸ r.goes_digits hvalid hsmall h.delta h.behind, ?_⟩
  have hnew : (r.placed.take (before.filter (·.toNat ≤ next)).length ++ Char.ofNat next ::
      r.placed.drop (before.filter (·.toNat ≤ next)).length) =
        (before ++ [c]).filter (·.toNat ≤ next) ++ after.filter (·.toNat < next) := by
    rw [hplaced, List.take_left, List.drop_left, ← heq, Char.ofNat_toNat]
    simp
  exact {
    point := h.point
    behind := le_refl _
    placed := hnew
    count := by
      change w.placed + 1 = _
      rw [List.length_append, List.length_cons, List.length_take_of_le hsmall, List.length_drop,
        h.count]
      omega
    bias := by rw [h.first, h.count]
    delta := by simp [heq]
    first := by
      have hbasics := h.basics
      have hgrown : (w.placed + 1 == basic) = false := by
        rw [beq_eq_false_iff_ne]
        omega
      simp [hgrown]
    basics := Nat.le_succ_of_le h.basics }

/-- One character of the label is passed over, or written. -/
theorem pass {c : Char} (h : Agrees basic before (c :: after) next w r) :
    ∃ s r', (w.pass basic c.toNat).output = w.output ++ s ∧ r.Goes s r' ∧
      Agrees basic (before ++ [c]) after next (w.pass basic c.toNat) r' := by
  have hpoint := h.point
  unfold Writer.pass
  rcases Nat.lt_trichotomy c.toNat next with hlt | heq | hgt
  · rw [if_pos (hpoint ▸ hlt)]
    exact ⟨[], r, by simp, .refl r, h.countPlace hlt⟩
  · obtain ⟨r', hgoes, hagrees⟩ := h.write heq
    rw [if_neg (by omega), if_pos (by omega)]
    exact ⟨_, r', rfl, hgoes, hagrees⟩
  · rw [if_neg (by omega), if_neg (by omega)]
    exact ⟨[], r, by simp, .refl r, h.leave hgt⟩

/-- The writer goes over a label once. -/
theorem passes (h : Agrees basic before after next w r) : ∃ s r',
    ((after.map Char.toNat).foldl (fun w c => w.pass basic c) w).output = w.output ++ s ∧
      r.Goes s r' ∧ Agrees basic (before ++ after) [] next
        ((after.map Char.toNat).foldl (fun w c => w.pass basic c) w) r' := by
  induction after generalizing before w r with
  | nil => exact ⟨[], r, by simp, .refl r, by simpa using h⟩
  | cons c after ih =>
      obtain ⟨s, r', houtput, hgoes, hagrees⟩ := h.pass
      obtain ⟨s', r'', houtput', hgoes', hagrees'⟩ := ih hagrees
      rw [List.append_cons]
      refine ⟨s ++ s', r'', ?_, hgoes.trans hgoes', hagrees'⟩
      rw [List.map_cons, List.foldl_cons, houtput', houtput, List.append_assoc]

/-- The writer goes on to a later code point that nothing of the label comes before. -/
theorem jump {label : List Char} {later : Nat} (h : Agrees basic [] label next w r)
    (hlater : next ≤ later) (hnone : ∀ c ∈ label, next ≤ c.toNat → later ≤ c.toNat) :
    Agrees basic [] label later
      { w with delta := w.delta + (later - w.point) * (w.placed + 1), point := later } r := by
  have hdelta := h.delta
  exact { h with
    point := rfl
    behind := h.behind.trans hlater
    placed := by
      rw [h.placed]
      simp only [List.filter_nil, List.nil_append]
      refine List.filter_congr fun c hc => ?_
      have hnot := hnone c hc
      rw [decide_eq_decide]
      omega
    delta := by
      simp only [List.filter_nil, List.length_nil] at hdelta ⊢
      obtain ⟨k, rfl⟩ := Nat.exists_eq_add_of_le hlater
      rw [h.point, h.count, Nat.add_sub_cancel_left]
      have hexpand : (next + k) * (r.placed.length + 1) =
          next * (r.placed.length + 1) + k * (r.placed.length + 1) := by ring
      omega }

/-- Behind the last place of a label comes the first one, with the next code point. -/
theorem turn {label : List Char} (h : Agrees basic label [] next w r) :
    Agrees basic [] label (next + 1) { w with delta := w.delta + 1, point := w.point + 1 } r := by
  have hdelta := h.delta
  have hplaced : r.placed = label.filter (·.toNat ≤ next) := by simpa using h.placed
  exact { h with
    point := by simp [h.point]
    behind := Nat.le_succ_of_le h.behind
    placed := by
      simp only [Nat.lt_succ_iff]
      simp [hplaced]
    delta := by
      rw [← hplaced] at hdelta
      simp only [List.filter_nil, List.length_nil]
      have hexpand : (next + 1) * (r.placed.length + 1) =
          next * (r.placed.length + 1) + (r.placed.length + 1) := by ring
      omega }

/-- All places of one code point are written. -/
theorem round {label : List Char} {later : Nat} (h : Agrees basic [] label next w r)
    (hlater : next ≤ later) (hnone : ∀ c ∈ label, next ≤ c.toNat → later ≤ c.toNat) :
    ∃ s r', (w.round basic (label.map Char.toNat) later).output = w.output ++ s ∧ r.Goes s r' ∧
      Agrees basic [] label (later + 1) (w.round basic (label.map Char.toNat) later) r' := by
  obtain ⟨s, r', houtput, hgoes, hagrees⟩ := (h.jump hlater hnone).passes
  exact ⟨s, r', houtput, hgoes, hagrees.turn⟩

/-- All code points of a label are written, in ascending order. -/
theorem rounds {label : List Char} {points : List Nat} (h : Agrees basic [] label next w r)
    (hsorted : points.Pairwise (· < ·)) (hfrom : ∀ p ∈ points, next ≤ p)
    (hall : ∀ c ∈ label, next ≤ c.toNat → c.toNat ∈ points) :
    ∃ s r', (points.foldl (fun w later => w.round basic (label.map Char.toNat) later) w).output =
      w.output ++ s ∧ r.Goes s r' ∧ r'.placed = label := by
  induction points generalizing next w r with
  | nil =>
      refine ⟨[], r, by simp, .refl r, ?_⟩
      rw [h.placed, List.filter_nil, List.nil_append, List.filter_eq_self]
      intro c hc
      by_contra hbig
      exact List.not_mem_nil (hall c hc (by simpa using hbig))
  | cons p points ih =>
      obtain ⟨hp, hsorted⟩ := List.pairwise_cons.1 hsorted
      obtain ⟨hfirst, hfrom⟩ := List.forall_mem_cons.1 hfrom
      obtain ⟨s, r', houtput, hgoes, hagrees⟩ := h.round hfirst fun c hc hge => by
        rcases List.mem_cons.1 (hall c hc hge) with heq | hmem
        · exact heq.ge
        · exact (hp _ hmem).le
      obtain ⟨s', r'', houtput', hgoes', hplaced⟩ := ih hagrees hsorted (fun q hq => hp q hq)
        fun c hc hge => by
          rcases List.mem_cons.1 (hall c hc (by omega)) with heq | hmem
          · omega
          · exact hmem
      refine ⟨s ++ s', r'', ?_, hgoes.trans hgoes', hplaced⟩
      rw [List.foldl_cons, houtput', houtput, List.append_assoc]

end Agrees

/-! ### Labels -/

theorem pairwise_eraseDups {l : List Nat} (h : l.Pairwise (· ≤ ·)) :
    l.eraseDups.Pairwise (· < ·) := by
  induction hn : l.length using Nat.strong_induction_on generalizing l with
  | _ n ih =>
      cases l with
      | nil => simp
      | cons a l =>
          obtain ⟨ha, hl⟩ := List.pairwise_cons.1 h
          have hrest : (l.filter fun b => !b == a).length < n := by
            rw [← hn, List.length_cons]
            exact Nat.lt_succ_of_le (List.length_filter_le _ _)
          rw [List.eraseDups_cons, List.pairwise_cons]
          refine ⟨fun b hb => ?_, ih _ hrest (hl.filter _) rfl⟩
          obtain ⟨hmem, hne⟩ := List.mem_filter.1 (List.mem_eraseDups.1 hb)
          exact lt_of_le_of_ne (ha b hmem) fun heq => by simp [heq] at hne

/-- A written label is its ASCII characters, and digits that tell where the others are. -/
theorem encode_eq (label : List Char) : ∃ coded, ∃ r' : Reader,
    encode label = (if (label.filter (·.toNat < initialPoint)).isEmpty then []
      else label.filter (·.toNat < initialPoint) ++ ['-']) ++ coded ∧
    Reader.Goes ⟨initialPoint, 0, initialBias, label.filter (·.toNat < initialPoint)⟩ coded r' ∧
    r'.placed = label := by
  have hstart : ∀ start, Agrees (label.filter (·.toNat < initialPoint)).length [] label initialPoint
      (Writer.mk initialPoint 0 initialBias (label.filter (·.toNat < initialPoint)).length start)
      ⟨initialPoint, 0, initialBias, label.filter (·.toNat < initialPoint)⟩ := by
    intro start
    exact {
      point := rfl
      behind := le_refl _
      placed := by simp
      count := rfl
      bias := rfl
      delta := by simp
      first := by simp
      basics := le_refl _ }
  have hmem : ∀ p, p ∈ (((label.map Char.toNat).filter (initialPoint ≤ ·)).mergeSort
      (· ≤ ·)).eraseDups ↔ p ∈ label.map Char.toNat ∧ initialPoint ≤ p := by
    intro p
    rw [List.mem_eraseDups, (List.mergeSort_perm _ _).mem_iff, List.mem_filter,
      decide_eq_true_iff]
  have hsorted := @List.pairwise_mergeSort Nat (fun a b => decide (a ≤ b))
    (by simpa using fun a b c => Nat.le_trans) (by simpa using Nat.le_total)
    ((label.map Char.toNat).filter (initialPoint ≤ ·))
  obtain ⟨coded, r', houtput, hgoes, hplaced⟩ := (hstart _).rounds
    (pairwise_eraseDups (hsorted.imp (by simp))) (fun p hp => ((hmem p).1 hp).2)
    (fun c hc hge => (hmem _).2 ⟨List.mem_map_of_mem hc, hge⟩)
  exact ⟨coded, r', houtput, hgoes, hplaced⟩

theorem ne_of_digitValue? {c d : Char} (h : (digitValue? c).isSome) (hd : digitValue? d = none) :
    c ≠ d := by
  rintro rfl
  simp [hd] at h

/-- A label is read as it was written. -/
theorem decode?_encode (label : List Char) : decode? (encode label) = some label := by
  obtain ⟨coded, r', hencode, ⟨hdigits, numbers, hnumbers, hread⟩, hplaced⟩ := encode_eq label
  have hall := hread (coded.length - numbers) []
  rw [Nat.sub_add_cancel hnumbers, List.append_nil] at hall
  have hend : r'.read? (coded.length - numbers) [] = some label := by
    rw [← hplaced, Reader.read?, insertAll?]
  have hmark : ∀ c ∈ coded, (c != '-') = true := fun c hc => by
    simpa using ne_of_digitValue? (hdigits c hc) (by decide)
  have htail : coded.reverse.takeWhile (· != '-') = coded.reverse :=
    List.takeWhile_eq_self_iff.2 fun c hc => hmark c (List.mem_reverse.1 hc)
  by_cases hascii : label.filter (·.toNat < initialPoint) = []
  · rw [hascii] at hencode hall
    rw [hencode, decode?]
    simp only [List.isEmpty_nil, if_true, List.nil_append, htail, List.reverse_reverse]
    exact hall.trans hend
  · have hmarked : encode label = label.filter (·.toNat < initialPoint) ++ '-' :: coded := by
      rw [hencode, if_neg (by simpa using hascii), List.append_assoc, List.singleton_append]
    have hlong :
        ¬ coded.length = (label.filter (·.toNat < initialPoint) ++ '-' :: coded).length := by
      rw [List.length_append, List.length_cons]
      omega
    have hcut : ((label.filter (·.toNat < initialPoint) ++ '-' :: coded).reverse.takeWhile
        (· != '-')).reverse = coded := by
      rw [List.reverse_append, List.reverse_cons, List.append_assoc, List.takeWhile_append_of_pos]
      · simp
      · exact fun c hc => hmark c (List.mem_reverse.1 hc)
    have hfront : (label.filter (·.toNat < initialPoint) ++ '-' :: coded).take
        ((label.filter (·.toNat < initialPoint) ++ '-' :: coded).length - coded.length - 1) =
          label.filter (·.toNat < initialPoint) := by
      rw [List.length_append, List.length_cons]
      exact List.take_left' (by omega)
    rw [hmarked, decode?]
    simp only [hcut, if_neg hlong, hfront]
    exact hall.trans hend

/-- A written label has no characters but ASCII ones of the label, hyphens, and digits. -/
theorem forall_mem_encode {p : Char → Prop} {label : List Char}
    (hlabel : ∀ c ∈ label, c.toNat < initialPoint → p c) (hmark : p '-')
    (hdigit : ∀ c, (digitValue? c).isSome → p c) : ∀ c ∈ encode label, p c := by
  obtain ⟨coded, r', hencode, ⟨hdigits, -⟩, -⟩ := encode_eq label
  intro c hc
  rw [hencode, List.mem_append] at hc
  have hkept : ∀ c ∈ label.filter (·.toNat < initialPoint), p c := fun c hc =>
    hlabel c (List.mem_filter.1 hc).1 (by simpa using (List.mem_filter.1 hc).2)
  rcases hc with hc | hc
  · split at hc
    · simp at hc
    · rcases List.mem_append.1 hc with hc | hc
      · exact hkept c hc
      · obtain rfl : c = '-' := by simpa using hc
        exact hmark
  · exact hdigit c (hdigits c hc)

end TraceExport.Url.Punycode
