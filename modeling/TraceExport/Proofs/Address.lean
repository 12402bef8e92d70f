import TraceExport.Proofs.Path
import TraceExport.Url.Host
import Mathlib.Algebra.Group.Nat.Defs
import Mathlib.Order.Nat

/-!
Addresses of hosts, and the numbers in them. An address of either version is taken apart from its
text into the numbers that it was written from (`ipv4?_text`, `ipv6?_text`). The longest run of
zeros in an address of version 6 is not written; it stands where the doubled colon is.
-/

namespace TraceExport.Url

open Text

/-! ### Numbers -/

theorem hexValue?_digitChar : ∀ n < 16, hexValue? (Nat.digitChar n) = some n := by decide

/-- A number is read as it was written. -/
theorem number?_toDigits {base : Nat} (hone : 1 < base) (hbase : base ≤ 16) (n : Nat) :
    number? base (Nat.toDigits base n) = some n := by
  induction n using Nat.strong_induction_on with
  | _ n ih =>
      by_cases hn : n < base
      · rw [Nat.toDigits_of_lt_base hn]
        simp [number?, hexValue?_digitChar n (by omega), hn]
      · have hle := Nat.not_lt.1 hn
        have hlast := Nat.mod_lt n (Nat.zero_lt_of_lt hone)
        have hfront := ih (n / base) (Nat.div_lt_self (by omega) hone)
        rw [number?] at hfront
        rw [Nat.toDigits_of_base_le hone hle, number?, List.foldlM_append, hfront]
        simp [hexValue?_digitChar (n % base) (by omega), hlast, Nat.div_add_mod']

/-- A number has digits only, and is as long as they allow. -/
theorem of_number? {base n : Nat} {s : List Char} (h : number? base s = some n) :
    (∀ c ∈ s, (hexValue? c).isSome) ∧ n < base ^ s.length := by
  suffices hfrom : ∀ start, s.foldlM (fun n c => do
      let d ← hexValue? c
      if d < base then some (n * base + d) else none) start = some n →
      (∀ c ∈ s, (hexValue? c).isSome) ∧ n < (start + 1) * base ^ s.length by
    simpa using hfrom 0 h
  clear h
  induction s with
  | nil => simp
  | cons c s ih =>
      intro start h
      simp only [List.foldlM_cons, Option.bind_eq_bind, Option.bind_eq_some_iff] at h
      obtain ⟨next, ⟨d, hd, hnext⟩, h⟩ := h
      split at hnext
      · cases hnext
        rename_i hlt
        obtain ⟨hdigits, hbound⟩ := ih _ h
        refine ⟨List.forall_mem_cons.2 ⟨by simp [hd], hdigits⟩, hbound.trans_le ?_⟩
        rw [List.length_cons, Nat.pow_succ', ← Nat.mul_assoc]
        refine Nat.mul_le_mul_right _ ?_
        rw [Nat.add_mul, Nat.one_mul]
        omega
      · simp at hnext

theorem mapM_map_eq_some {α β : Type} {f : β → Option α} {g : α → β} {xs : List α}
    (h : ∀ x ∈ xs, f (g x) = some x) : (xs.map g).mapM f = some xs := by
  induction xs with
  | nil => rfl
  | cons x xs ih =>
      obtain ⟨hx, hxs⟩ := List.forall_mem_cons.1 h
      rw [List.map_cons, List.mapM_cons, hx, ih hxs]
      rfl

theorem forall_of_mapM_eq_some {α β : Type} {f : α → Option β} {p : β → Prop} {xs : List α}
    {ys : List β} (h : xs.mapM f = some ys) (hp : ∀ x ∈ xs, ∀ y, f x = some y → p y) :
    ∀ y ∈ ys, p y := by
  induction xs generalizing ys with
  | nil =>
      cases h
      simp
  | cons x xs ih =>
      obtain ⟨hx, hxs⟩ := List.forall_mem_cons.1 hp
      simp only [List.mapM_cons, Option.bind_eq_bind, Option.bind_eq_some_iff] at h
      obtain ⟨y, hy, ys', hys, heq⟩ := h
      cases heq
      exact List.forall_mem_cons.2 ⟨hx y hy, ih hys hxs⟩

/-! ### Addresses of version 4 -/

/-- The parts in front of the last one leave room for it. -/
theorem foldl_parts_le {front : List Nat} (hfront : ∀ n ∈ front, n < 256) (place start : Nat)
    (hplace : place + front.length ≤ 4) :
    ((front.zipIdx place).map fun part => part.1 * Nat.pow 256 (3 - part.2)).foldl (· + ·) start +
      Nat.pow 256 (4 - place - front.length) ≤ start + Nat.pow 256 (4 - place) := by
  induction front generalizing place start with
  | nil => simp
  | cons n front ih =>
      obtain ⟨hn, hfront⟩ := List.forall_mem_cons.1 hfront
      rw [List.length_cons] at hplace
      have hrest := ih hfront (place + 1) (start + n * Nat.pow 256 (3 - place)) (by omega)
      have hnext : 4 - (place + 1) = 3 - place := by omega
      have hpower : Nat.pow 256 (4 - place) = 256 * Nat.pow 256 (3 - place) := by
        rw [show 4 - place = 3 - place + 1 by omega]
        exact Nat.pow_succ'
      have hfits : (n + 1) * Nat.pow 256 (3 - place) ≤ 256 * Nat.pow 256 (3 - place) :=
        Nat.mul_le_mul_right _ hn
      have hend : 4 - place - (n :: front).length = 3 - place - front.length := by
        rw [List.length_cons]
        omega
      rw [Nat.add_mul, Nat.one_mul] at hfits
      rw [hnext] at hrest
      rw [List.zipIdx_cons, List.map_cons, List.foldl_cons, hpower, hend]
      dsimp only
      omega

theorem ipv4OfParts?_lt {parts : List Nat} {address : Nat}
    (h : ipv4OfParts? parts = some address) : address < Nat.pow 256 4 := by
  unfold ipv4OfParts? at h
  split at h
  · simp at h
  · rename_i last front hparts
    split at h
    · rename_i hbounds
      obtain ⟨hlength, hfront, hlast⟩ := hbounds
      rw [← Option.some.inj h]
      have hparts : ∀ n ∈ front.reverse, n < 256 := by simpa using hfront
      have hsum := foldl_parts_le hparts 0 last (by simpa using hlength.le)
      rw [List.length_reverse, Nat.sub_zero] at hsum
      refine Nat.lt_of_add_lt_add_right (hsum.trans_lt ?_)
      rw [Nat.add_comm]
      exact Nat.add_lt_add_left hlast _
    · simp at h

/-- The four bytes of an address, the highest one first. -/
def bytes (address : Nat) : List Nat := [3, 2, 1, 0].map fun i => address / Nat.pow 256 i % 256

theorem lt_of_mem_bytes {address n : Nat} (h : n ∈ bytes address) : n < 256 := by
  obtain ⟨i, -, rfl⟩ := List.mem_map.1 h
  exact Nat.mod_lt _ (by decide)

theorem ipv4OfParts?_bytes {address : Nat} (h : address < Nat.pow 256 4) :
    ipv4OfParts? (bytes address) = some address := by
  have hpower : Nat.pow 256 4 = 4294967296 := by decide
  simp [ipv4OfParts?, bytes]
  omega

theorem ipv4Part?_toDigits : ∀ n < 256, ipv4Part? (Nat.toDigits 10 n) = some n := by
  decide +kernel

theorem toList_ipv4Text (address : Nat) :
    (ipv4Text address).toList = join ['.'] ((bytes address).map (Nat.toDigits 10)) := by
  simp [ipv4Text, bytes]

theorem isDigit_of_mem_decimals {numbers : List Nat} {piece : List Char}
    (h : piece ∈ numbers.map (Nat.toDigits 10)) : ∀ c ∈ piece, c.isDigit := by
  obtain ⟨n, -, rfl⟩ := List.mem_map.1 h
  exact fun c => Nat.isDigit_of_mem_toDigits (by decide) (by decide)

theorem splitOn_decimals {numbers : List Nat} (hne : numbers ≠ []) :
    splitOn (· == '.') (join ['.'] (numbers.map (Nat.toDigits 10))) =
      numbers.map (Nat.toDigits 10) := by
  refine splitOn_join rfl (by simpa using hne) fun piece hpiece c hc => ?_
  have hdigit := isDigit_of_mem_decimals hpiece c hc
  exact beq_eq_false_iff_ne.2 fun heq => by simp [heq] at hdigit

theorem dotted_decimals {numbers : List Nat} (hne : numbers ≠ []) :
    dotted (join ['.'] (numbers.map (Nat.toDigits 10))) = numbers.map (Nat.toDigits 10) := by
  have hlast : (numbers.map (Nat.toDigits 10)).getLast? ≠ some [] := by
    intro heq
    obtain ⟨n, -, hn⟩ := List.mem_map.1 (List.mem_of_getLast? heq)
    exact Nat.toDigits_ne_nil hn
  simp only [dotted, splitOn_decimals hne, if_neg hlast]

theorem endsInNumber_decimals {numbers : List Nat} (hne : numbers ≠ []) :
    endsInNumber (join ['.'] (numbers.map (Nat.toDigits 10))) := by
  have hsome : (numbers.map (Nat.toDigits 10)).getLast? =
      some (Nat.toDigits 10 (numbers.getLast hne)) := by
    rw [List.getLast?_map, List.getLast?_eq_some_getLast hne]
    rfl
  have hdigits := isDigit_of_mem_decimals (List.mem_of_getLast? hsome)
  simp [endsInNumber, dotted_decimals hne, hsome, Nat.toDigits_ne_nil]
  exact Or.inl fun c hc => hdigits c hc

/-- An address of version 4 is read as it was written. -/
theorem ipv4?_text {address : Nat} (h : address < Nat.pow 256 4) :
    ipv4? (ipv4Text address).toList = some (.ipv4 address) := by
  have hne : bytes address ≠ [] := by simp [bytes]
  rw [toList_ipv4Text, ipv4?, dotted_decimals hne,
    mapM_map_eq_some fun n hn => ipv4Part?_toDigits n (lt_of_mem_bytes hn)]
  simp [ipv4OfParts?_bytes h]

/-! ### Addresses of version 6 -/

/-- The groups of an address: eight numbers of sixteen bits. -/
structure AreGroups (groups : List Nat) : Prop where
  length : groups.length = 8
  small : ∀ n ∈ groups, n < 65536

theorem lt_of_ipv6Group? {s : List Char} {n : Nat} (h : ipv6Group? s = some n) : n < 65536 := by
  unfold ipv6Group? at h
  split at h
  · simp at h
  · rename_i hshort
    have hlength : s.length ≤ 4 := by
      simp only [Bool.or_eq_true, decide_eq_true_eq, not_or] at hshort
      omega
    exact (of_number? h).2.trans_le (Nat.pow_le_pow_right (by decide) hlength)

theorem lt_of_octet? {s : List Char} {n : Nat} (h : octet? s = some n) : n < 256 := by
  unfold octet? at h
  split at h
  · simp at h
  · simp at h
  · simpa using (Option.filter_eq_some_iff.1 h).2

theorem lt_of_ipv6Dotted? {s : List Char} {groups : List Nat} (h : ipv6Dotted? s = some groups) :
    ∀ n ∈ groups, n < 65536 := by
  unfold ipv6Dotted? at h
  split at h
  · rename_i a b c d hoctets
    have hsmall := forall_of_mapM_eq_some (p := (· < 256)) hoctets fun s _ n => lt_of_octet?
    simp only [List.forall_mem_cons] at hsmall
    cases h
    simp only [List.forall_mem_cons]
    refine ⟨by omega, by omega, by simp⟩
  · simp at h

theorem lt_of_ipv6Groups? {mayBeDotted : Bool} {s : List Char} {groups : List Nat}
    (h : ipv6Groups? mayBeDotted s = some groups) : ∀ n ∈ groups, n < 65536 := by
  have hgroups : ∀ {pieces : List (List Char)} {ns : List Nat}, pieces.mapM ipv6Group? = some ns →
      ∀ n ∈ ns, n < 65536 :=
    fun hmap => forall_of_mapM_eq_some hmap fun s _ n => lt_of_ipv6Group?
  unfold ipv6Groups? at h
  split at h
  · cases h
    simp
  · simp only [Option.bind_eq_bind] at h
    split at h
    · obtain ⟨front, hfront, h⟩ := Option.bind_eq_some_iff.1 h
      obtain ⟨last, hlast, h⟩ := Option.bind_eq_some_iff.1 h
      cases h
      exact List.forall_mem_append.2 ⟨hgroups hfront, lt_of_ipv6Dotted? hlast⟩
    · exact hgroups h

theorem of_ipv6? {s : List Char} {host : Host} (h : ipv6? s = some host) :
    ∃ groups, host = .ipv6 groups ∧ AreGroups groups := by
  unfold ipv6? at h
  split at h
  · simp only [Option.bind_eq_bind] at h
    obtain ⟨groups, hgroups, h⟩ := Option.bind_eq_some_iff.1 h
    split at h
    · cases h
      exact ⟨groups, rfl, by assumption, lt_of_ipv6Groups? hgroups⟩
    · simp at h
  · simp only [Option.bind_eq_bind] at h
    obtain ⟨left, hleft, h⟩ := Option.bind_eq_some_iff.1 h
    obtain ⟨right, hright, h⟩ := Option.bind_eq_some_iff.1 h
    split at h
    · cases h
      refine ⟨_, rfl, ?_, ?_⟩
      · simp only [List.length_append, List.length_replicate]
        omega
      · simp only [List.forall_mem_append, List.mem_replicate]
        exact ⟨⟨lt_of_ipv6Groups? hleft, by omega⟩, lt_of_ipv6Groups? hright⟩
    · simp at h

/-- Where a group is written, there is no other mark. -/
theorem of_mem_hexText {n : Nat} : ∀ c ∈ hexText n, (hexValue? c).isSome :=
  (of_number? (number?_toDigits (by decide) (by decide) n)).1

theorem not_mem_hexText {n : Nat} {c : Char} (hc : hexValue? c = none) : c ∉ hexText n := by
  intro hmem
  have hsome := of_mem_hexText c hmem
  simp [hc] at hsome

theorem ipv6Group?_hexText {n : Nat} (h : n < 65536) : ipv6Group? (hexText n) = some n := by
  have hlength : (hexText n).length ≤ 4 := (Nat.length_toDigits_le_iff (by decide) (by decide)).2 h
  have hne : hexText n ≠ [] := Nat.toDigits_ne_nil
  rw [ipv6Group?, if_neg (by simp [hne, hlength])]
  exact number?_toDigits (by decide) (by decide) n

/-- Groups with colons between them, as they are written. -/
def colons (groups : List Nat) : List Char := join [':'] (groups.map hexText)

theorem ipv6Text_eq (groups : List Nat) : ipv6Text groups =
    if (longestZeros groups).2 < 2 then colons groups
    else colons (groups.take (longestZeros groups).1) ++ [':', ':'] ++
      colons (groups.drop ((longestZeros groups).1 + (longestZeros groups).2)) := rfl

theorem splitOn_colons {groups : List Nat} (hne : groups ≠ []) :
    splitOn (· == ':') (colons groups) = groups.map hexText := by
  refine splitOn_join rfl (by simpa using hne) fun piece hpiece c hc => ?_
  obtain ⟨n, -, rfl⟩ := List.mem_map.1 hpiece
  exact beq_eq_false_iff_ne.2 fun heq => not_mem_hexText (by decide) (heq ▸ hc)

theorem colons_cons (n : Nat) (groups : List Nat) :
    colons (n :: groups) = hexText n ++ (if groups = [] then [] else ':' :: colons groups) := by
  cases groups with
  | nil => simp [colons, join]
  | cons m groups => simp [colons, join]

theorem hexText_eq_cons (n : Nat) : ∃ c s, hexText n = c :: s ∧ c ≠ ':' := by
  obtain ⟨c, s, hcons⟩ := List.exists_cons_of_ne_nil (Nat.toDigits_ne_nil : hexText n ≠ [])
  refine ⟨c, s, hcons, ?_⟩
  rintro rfl
  exact not_mem_hexText (by decide) (hcons ▸ List.mem_cons_self)

/-- Groups are read as they were written. -/
theorem ipv6Groups?_colons (mayBeDotted : Bool) {groups : List Nat}
    (h : ∀ n ∈ groups, n < 65536) : ipv6Groups? mayBeDotted (colons groups) = some groups := by
  cases groups with
  | nil => rfl
  | cons n groups =>
      have hempty : (colons (n :: groups)).isEmpty = false := by
        obtain ⟨c, s, hcons, -⟩ := hexText_eq_cons n
        rw [colons_cons, hcons]
        rfl
      have hdot : (((n :: groups).map hexText).getLast?.getD []).contains '.' = false := by
        rw [List.getLast?_map, List.getLast?_eq_some_getLast (by simp)]
        simpa using not_mem_hexText (by decide)
      rw [ipv6Groups?, hempty, splitOn_colons (by simp)]
      simp only [hdot, Bool.and_false, Bool.false_eq_true, if_false]
      exact mapM_map_eq_some fun n hn => ipv6Group?_hexText (h n hn)

theorem splitDouble?_append {s : List Char} (hs : ':' ∉ s) (t : List Char) :
    splitDouble? (s ++ t) = (splitDouble? t).map fun r => (s ++ r.1, r.2) := by
  induction s with
  | nil => simp
  | cons c s ih =>
      rw [List.mem_cons, not_or] at hs
      rw [List.cons_append, splitDouble?, ih hs.2, Option.map_map]
      · rfl
      · rintro rest rfl
        exact absurd rfl hs.1

/-- Between groups that are written there is no doubled colon. -/
theorem splitDouble?_colons (groups : List Nat) (t : List Char) :
    splitDouble? (colons groups ++ t) =
      (splitDouble? t).map fun r => (colons groups ++ r.1, r.2) := by
  induction groups with
  | nil => simp [colons, join]
  | cons n groups ih =>
      rw [colons_cons, List.append_assoc, splitDouble?_append (not_mem_hexText (by decide))]
      split
      · simp
      · rename_i hne
        obtain ⟨m, groups, rfl⟩ := List.exists_cons_of_ne_nil hne
        obtain ⟨c, s, hcons, hc⟩ := hexText_eq_cons m
        rw [List.cons_append, splitDouble?, ih, Option.map_map, Option.map_map]
        · simp [Function.comp_def]
        · intro rest _ heq
          rw [colons_cons, hcons] at heq
          exact hc (List.cons.inj heq).1

/-- A run of zeros stands where it was found. -/
theorem eq_replicate_of_le_zeroRun {groups : List Nat} {k : Nat} (h : k ≤ zeroRun groups) :
    groups = List.replicate k 0 ++ groups.drop k := by
  induction groups generalizing k with
  | nil => simp_all [zeroRun]
  | cons n groups ih =>
      cases k with
      | zero => rfl
      | succ k =>
          rw [zeroRun, List.takeWhile_cons] at h
          split at h
          · rename_i hzero
            have hrest := ih (k := k) (by simpa [zeroRun] using h)
            rw [List.replicate_succ, List.cons_append, List.drop_succ_cons, ← hrest]
            simpa using hzero
          · simp at h

theorem longestZeros_le (groups : List Nat) :
    (longestZeros groups).2 ≤ zeroRun (groups.drop (longestZeros groups).1) := by
  unfold longestZeros
  generalize List.range groups.length = places
  suffices h : ∀ best : Nat × Nat, best.2 ≤ zeroRun (groups.drop best.1) →
      (places.foldl (fun best i => if best.2 < zeroRun (groups.drop i) then
        (i, zeroRun (groups.drop i)) else best) best).2 ≤
      zeroRun (groups.drop (places.foldl (fun best i => if best.2 < zeroRun (groups.drop i) then
        (i, zeroRun (groups.drop i)) else best) best).1) from h (0, 0) (Nat.zero_le _)
  induction places with
  | nil => exact fun _ h => h
  | cons i places ih =>
      intro best hbest
      rw [List.foldl_cons]
      refine ih _ ?_
      split
      · exact le_refl _
      · exact hbest

/-- An address of version 6 is read as it was written. -/
theorem ipv6?_text {groups : List Nat} (h : AreGroups groups) :
    ipv6? (ipv6Text groups) = some (.ipv6 groups) := by
  obtain ⟨hlength, hsmall⟩ := h
  have hrun := eq_replicate_of_le_zeroRun (longestZeros_le groups)
  rw [ipv6Text_eq]
  generalize longestZeros groups = best at hrun ⊢
  obtain ⟨start, length⟩ := best
  simp only at hrun ⊢
  split
  · have hsplit : splitDouble? (colons groups) = none := by
      have hnone := splitDouble?_colons groups []
      rwa [List.append_nil] at hnone
    rw [ipv6?, hsplit]
    simp [ipv6Groups?_colons true hsmall, hlength]
  · rename_i hlong
    have hfits := congrArg List.length hrun
    simp only [List.length_append, List.length_replicate, List.length_drop, hlength] at hfits
    have hfront : (groups.take start).length = start := by
      rw [List.length_take]
      omega
    have hback : (groups.drop (start + length)).length = 8 - (start + length) := by
      rw [List.length_drop, hlength]
    have hzeros : 8 - start - (8 - (start + length)) = length := by omega
    have hwhole : groups.take start ++ List.replicate length 0 ++ groups.drop (start + length) =
        groups := by
      rw [List.append_assoc, ← List.drop_drop, ← hrun, List.take_append_drop]
    have hsplit := splitDouble?_colons (groups.take start)
      (':' :: ':' :: colons (groups.drop (start + length)))
    have hleft : ipv6Groups? false (colons (groups.take start)) = some (groups.take start) :=
      ipv6Groups?_colons false fun n hn => hsmall n (List.mem_of_mem_take hn)
    have hright : ipv6Groups? true (colons (groups.drop (start + length))) =
        some (groups.drop (start + length)) :=
      ipv6Groups?_colons true fun n hn => hsmall n (List.mem_of_mem_drop hn)
    rw [List.append_assoc, List.cons_append, List.singleton_append, ipv6?, hsplit]
    simp only [splitDouble?, Option.map_some, List.append_nil, hleft, hright, Option.bind_eq_bind,
      Option.bind_some, hfront, hback, hzeros, hwhole]
    exact if_pos (by omega)

end TraceExport.Url
