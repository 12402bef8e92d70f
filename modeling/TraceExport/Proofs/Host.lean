import TraceExport.Proofs.Address
import TraceExport.Proofs.Punycode
import TraceExport.Proofs.Utf8
import TraceExport.Proofs.Written

/-!
Hosts of special URLs. What a host is written as is read as this host again (`Host.IsSpecial.read`),
since the labels of a domain name are in lower case and coded already. No mark that stands around a
host occurs in it (`Host.IsSpecial.splitHost_append`).
-/

namespace TraceExport.Url

open Text

/-! ### Domain names -/

theorem forall_mem_join {p : Char → Prop} {separator : List Char}
    (hseparator : ∀ c ∈ separator, p c) {pieces : List (List Char)} (hpieces : ∀ piece ∈ pieces, ∀ c ∈ piece, p c) :
    ∀ c ∈ join separator pieces, p c := by
  induction pieces with
  | nil => simp [join]
  | cons piece pieces ih =>
      obtain ⟨hpiece, hpieces⟩ := List.forall_mem_cons.1 hpieces
      cases pieces with
      | nil => exact hpiece
      | cons next pieces =>
          exact List.forall_mem_append.2
            ⟨List.forall_mem_append.2 ⟨hpiece, hseparator⟩, ih hpieces⟩

/-- An ASCII character without a lower-case form of its own. -/
def IsLowAscii (c : Char) : Prop := c.toNat < 128 ∧ ¬ (65 ≤ c.toNat ∧ c.toNat ≤ 90)

theorem image_not_upper : ∀ r ∈ caseRuns, 90 < r.image := by decide +kernel

theorem toNat_ofNat (n : Nat) : (Char.ofNat n).toNat = n ∨ (Char.ofNat n).toNat = 0 := by
  by_cases hvalid : n.isValidChar
  · have hchar : Char.ofNat n = Char.ofNatAux n hvalid := dif_pos hvalid
    exact .inl (by rw [hchar]; rfl)
  · exact .inr (congrArg Char.toNat (dif_neg hvalid))

theorem lowerChar_not_upper (c : Char) :
    ¬ (65 ≤ (lowerChar c).toNat ∧ (lowerChar c).toNat ≤ 90) := by
  unfold lowerChar
  split
  · exact toLower_not_upper c
  · split
    · rename_i n hn
      obtain ⟨r, hr, hlower⟩ := List.exists_of_findSome?_eq_some hn
      have himage := image_not_upper r hr
      unfold CaseRun.lower? at hlower
      split at hlower
      · cases hlower
        have hplace := toNat_ofNat (r.image + (c.toNat - r.first))
        omega
      · simp at hlower
    · omega

theorem lowerFrom_not_upper (before s : List Char) :
    ∀ c ∈ lowerFrom before s, ¬ (65 ≤ c.toNat ∧ c.toNat ≤ 90) := by
  induction s generalizing before with
  | nil => simp [lowerFrom]
  | cons c s ih =>
      rw [lowerFrom]
      refine List.forall_mem_append.2 ⟨?_, ih _⟩
      split
      · split <;> simp
      split
      · simp
      · simpa using lowerChar_not_upper c

theorem lowerFrom_eq_self {s : List Char} (hs : ∀ c ∈ s, IsLowAscii c) (before : List Char) :
    lowerFrom before s = s := by
  induction s generalizing before with
  | nil => rfl
  | cons c s ih =>
      obtain ⟨⟨hascii, hlow⟩, hs⟩ := List.forall_mem_cons.1 hs
      have hsigma : (c == 'Σ') = false := beq_eq_false_iff_ne.2 fun heq => by simp [heq] at hascii
      have hdotted : (c == 'İ') = false := beq_eq_false_iff_ne.2 fun heq => by simp [heq] at hascii
      have hsame : lowerChar c = c := by
        rw [lowerChar, if_pos hascii, eq_iff_toNat, toNat_toLower, if_neg hlow]
      rw [lowerFrom, hsigma, hdotted, ih hs]
      simp [hsame]

theorem unescape_eq_encode {s : List Char} (h : '%' ∉ s) : unescape s = Utf8.encode s := by
  fun_induction unescape s with
  | case1 => rfl
  | case2 a b s x y ha hb ih => simp at h
  | case3 a b s hnone ih => simp at h
  | case4 c s hplain ih =>
      rw [List.mem_cons, not_or] at h
      rw [ih h.2]
      rfl

/-- A label of a domain name, as it is kept. -/
structure IsLabel (label : List Char) : Prop where
  coded : asciiLabel? label = some label
  low : ∀ c ∈ label, IsLowAscii c
  whole : ∀ c ∈ label, (c == '.') = false

theorem isLowAscii_of_digitValue? {c : Char} (h : (Punycode.digitValue? c).isSome) :
    IsLowAscii c ∧ (c == '.') = false := by
  have hdot : '.'.toNat = 46 := rfl
  unfold Punycode.digitValue? at h
  rw [beq_eq_false_iff_ne, Ne, eq_iff_toNat, IsLowAscii, hdot]
  split at h
  · rename_i hletter
    obtain ⟨hfirst, hlast⟩ : 97 ≤ c.toNat ∧ c.toNat ≤ 122 := by
      simpa [Char.le_def, UInt32.le_iff_toNat_le] using hletter
    omega
  split at h
  · rename_i hdigit
    have hdigit := isDigit_iff.1 hdigit
    omega
  · simp at h

/-- A label is coded once. -/
theorem isLabel_of_asciiLabel? {plain label : List Char}
    (hlow : ∀ c ∈ plain, ¬ (65 ≤ c.toNat ∧ c.toNat ≤ 90)) (hwhole : ∀ c ∈ plain, (c == '.') = false)
    (h : asciiLabel? plain = some label) : IsLabel label := by
  have hsame := h
  unfold asciiLabel? at h
  split at h
  · rename_i hascii
    have hplain : ∀ c ∈ plain, IsLowAscii c := fun c hc =>
      ⟨of_decide_eq_true (List.all_eq_true.1 hascii c hc), hlow c hc⟩
    have heq : label = plain := by
      split at h
      · exact (Option.some.inj h).symm
      · split at h
        · split at h
          · exact (Option.some.inj h).symm
          · simp at h
        · simp at h
    subst heq
    exact ⟨hsame, hplain, hwhole⟩
  · rename_i hascii
    cases h
    have hcoded : ∀ c ∈ Punycode.encode plain, IsLowAscii c ∧ (c == '.') = false :=
      Punycode.forall_mem_encode
        (fun c hc hlt => ⟨⟨hlt, hlow c hc⟩, hwhole c hc⟩) (by simp [IsLowAscii])
        fun c => isLowAscii_of_digitValue?
    have hmark : ∀ c ∈ codedMark, IsLowAscii c ∧ (c == '.') = false := by
      simp [codedMark, IsLowAscii]
    have hall := List.forall_mem_append.2 ⟨hmark, hcoded⟩
    refine ⟨?_, fun c hc => (hall c hc).1, fun c hc => (hall c hc).2⟩
    have hlabel : (codedMark ++ Punycode.encode plain).all (·.toNat < 0x80) :=
      List.all_eq_true.2 fun c hc => decide_eq_true (hall c hc).1.1
    rw [asciiLabel?, if_pos hlabel]
    simp only [dropPrefix?_append, Punycode.decode?_encode]
    refine if_pos ⟨trivial, ?_⟩
    simpa using hascii

/-- Labels that are in no need of coding are read as a domain name or an address. -/
theorem domain?_join {labels : List (List Char)} (hne : labels ≠ [])
    (hlabels : ∀ label ∈ labels, IsLabel label) (hsome : join ['.'] labels ≠ [])
    (hallowed : ∀ c ∈ join ['.'] labels, isForbiddenInDomain c = false) :
    domain? (join ['.'] labels) = if endsInNumber (join ['.'] labels) then
      ipv4? (join ['.'] labels) else some (.domain (String.ofList (join ['.'] labels))) := by
  have hlow : ∀ c ∈ join ['.'] labels, IsLowAscii c :=
    forall_mem_join (by simp [IsLowAscii]) fun label hlabel => (hlabels label hlabel).low
  have hpercent : '%' ∉ join ['.'] labels := by
    intro hmem
    exact absurd (hallowed '%' hmem) (by decide)
  have hsplit : splitOn (· == '.') (join ['.'] labels) = labels :=
    splitOn_join rfl hne fun label hlabel => (hlabels label hlabel).whole
  have hcoded : labels.mapM asciiLabel? = some labels := by
    have hmap := mapM_map_eq_some (g := id) fun label hlabel => (hlabels label hlabel).coded
    rwa [List.map_id] at hmap
  have hfree : (join ['.'] labels).any isForbiddenInDomain = false :=
    List.any_eq_false.2 fun c hc => by simp [hallowed c hc]
  have hempty : (join ['.'] labels).isEmpty = false := by simpa using hsome
  rw [domain?, unescape_eq_encode hpercent, Utf8.decode?_encode]
  simp only [lower, lowerFrom_eq_self hlow, hsplit, hcoded, hfree, hempty, Option.bind_eq_bind,
    Option.bind_some, Bool.or_self, Bool.false_eq_true, if_false]

theorem asciiLabel?_toDigits : ∀ n < 256,
    asciiLabel? (Nat.toDigits 10 n) = some (Nat.toDigits 10 n) := by decide +kernel

theorem isLabel_decimal {n : Nat} (h : n < 256) : IsLabel (Nat.toDigits 10 n) := by
  have hdigit : ∀ c ∈ Nat.toDigits 10 n, 48 ≤ c.toNat ∧ c.toNat ≤ 57 := fun c hc =>
    isDigit_iff.1 (Nat.isDigit_of_mem_toDigits (by decide) (by decide) hc)
  refine isLabel_of_asciiLabel? (fun c hc => ?_) (fun c hc => ?_) (asciiLabel?_toDigits n h)
  · have hc := hdigit c hc
    omega
  · have hc := hdigit c hc
    have hdot : '.'.toNat = 46 := rfl
    rw [beq_eq_false_iff_ne, Ne, eq_iff_toNat]
    omega

/-! ### Hosts -/

/-- A host of a special URL, as it is kept. -/
inductive Host.IsSpecial : Host → Prop
  | domain {labels : List (List Char)} (hne : labels ≠ [])
      (hlabels : ∀ label ∈ labels, IsLabel label) (hsome : join ['.'] labels ≠ [])
      (hallowed : ∀ c ∈ join ['.'] labels, isForbiddenInDomain c = false)
      (hname : endsInNumber (join ['.'] labels) = false) :
      IsSpecial (.domain (String.ofList (join ['.'] labels)))
  | ipv4 {address : Nat} (h : address < Nat.pow 256 4) : IsSpecial (.ipv4 address)
  | ipv6 {groups : List Nat} (h : AreGroups groups) : IsSpecial (.ipv6 groups)

theorem isSpecial_of_domain? {s : List Char} {host : Host} (h : domain? s = some host) :
    host.IsSpecial := by
  unfold domain? at h
  simp only [Option.bind_eq_bind, Option.bind_eq_some_iff] at h
  obtain ⟨name, -, labels, hlabels, h⟩ := h
  have hall : ∀ label ∈ labels, IsLabel label := forall_of_mapM_eq_some hlabels
    fun plain hplain label => isLabel_of_asciiLabel?
      (fun c hc => lowerFrom_not_upper [] name c (exists_mem_splitOn.1 ⟨plain, hplain, hc⟩).1)
      (eq_false_of_mem_splitOn hplain)
  split at h
  · simp at h
  · rename_i hfree
    rw [Bool.or_eq_true, not_or, Bool.not_eq_true, Bool.not_eq_true, List.any_eq_false] at hfree
    split at h
    · obtain ⟨parts, -, h⟩ := Option.bind_eq_some_iff.1 h
      obtain ⟨address, haddress, rfl⟩ := Option.map_eq_some_iff.1 h
      exact .ipv4 (ipv4OfParts?_lt haddress)
    · rename_i hname
      cases h
      have hsome : join ['.'] labels ≠ [] := by simpa using hfree.1
      refine .domain ?_ hall hsome (fun c hc => by simpa using hfree.2 c hc) (by simpa using hname)
      rintro rfl
      exact hsome rfl

theorem isSpecial_of_specialHost? {s : List Char} {host : Host} (h : specialHost? s = some host) :
    host.IsSpecial := by
  unfold specialHost? at h
  split at h
  · obtain ⟨inside, -, h⟩ := Option.bind_eq_some_iff.1 h
    obtain ⟨groups, rfl, hgroups⟩ := of_ipv6? h
    exact .ipv6 hgroups
  · exact isSpecial_of_domain? h

theorem bracketed_eq_none {s : List Char} (h : '[' ∉ s) : bracketed s = none := by
  unfold bracketed
  split
  · simp at h
  · rfl

theorem isForbiddenInDomain_digit {c : Char} (h : c.isDigit) : isForbiddenInDomain c = false := by
  have hrange := isDigit_iff.1 h
  have hlt : c.toNat < 58 := by omega
  exact of_forall_ofNat (P := fun c => c.isDigit → isForbiddenInDomain c = false) (by decide) hlt h

theorem specialHost?_ipv4Text {address : Nat} (h : address < Nat.pow 256 4) :
    specialHost? (ipv4Text address).toList = some (.ipv4 address) := by
  have hne : bytes address ≠ [] := by simp [bytes]
  have hlabels : ∀ label ∈ (bytes address).map (Nat.toDigits 10), IsLabel label := by
    intro label hlabel
    obtain ⟨n, hn, rfl⟩ := List.mem_map.1 hlabel
    exact isLabel_decimal (lt_of_mem_bytes hn)
  have hallowed : ∀ c ∈ (ipv4Text address).toList, isForbiddenInDomain c = false := by
    rw [toList_ipv4Text]
    exact forall_mem_join (List.forall_mem_singleton.2 (by decide)) fun piece hpiece c hc =>
      isForbiddenInDomain_digit (isDigit_of_mem_decimals hpiece c hc)
  have hopen : '[' ∉ (ipv4Text address).toList := fun hmem => absurd (hallowed '[' hmem) (by decide)
  have haddress := ipv4?_text h
  have hnumber := endsInNumber_decimals hne
  have hsome : (ipv4Text address).toList ≠ [] := by
    intro hnil
    rw [toList_ipv4Text] at hnil
    rw [hnil] at hnumber
    cases hnumber
  rw [specialHost?, bracketed_eq_none hopen]
  rw [toList_ipv4Text] at hallowed haddress hsome ⊢
  simp only [domain?_join (by simpa using hne) hlabels hsome hallowed, hnumber, if_true, haddress]

/-- A host of a special URL is read as it was written. -/
theorem Host.IsSpecial.read {host : Host} (h : host.IsSpecial) :
    specialHost? host.text.toList = some host := by
  cases h with
  | @domain labels hne hlabels hsome hallowed hname =>
      have hopen : '[' ∉ join ['.'] labels := fun hmem => absurd (hallowed '[' hmem) (by decide)
      simp [specialHost?, Host.text, bracketed_eq_none hopen,
        domain?_join hne hlabels hsome hallowed, hname]
  | ipv4 h => exact specialHost?_ipv4Text h
  | @ipv6 groups h =>
      have hclosed : dropSuffix? [']'] (ipv6Text groups ++ [']']) = some (ipv6Text groups) :=
        dropSuffix?_eq_some.2 rfl
      simp [specialHost?, Host.text, bracketed, hclosed, ipv6?_text h]

theorem Host.IsSpecial.text_ne_nil {host : Host} (h : host.IsSpecial) :
    host.text.toList ≠ [] := by
  have hread := h.read
  have hnone : specialHost? [] = none := by decide +kernel
  intro hnil
  rw [hnil, hnone] at hread
  cases hread

/-! ### What stands around a host -/

/-- A mark that ends an authority or the user in it, or a character that is no part of a host. -/
def isOutsideHost (c : Char) : Bool := isAlwaysEscaped c || " /\\@?#".toList.contains c

/-- The text of a host that is not in brackets. -/
def IsUnbracketed (s : List Char) : Prop :=
  ∀ c ∈ s, c.toNat < 128 ∧ isForbiddenInDomain c = false

theorem isOutsideHost_of_isForbiddenInDomain {c : Char} (hc : c.toNat < 128)
    (h : isForbiddenInDomain c = false) : isOutsideHost c = false := by
  exact of_forall_ofNat
    (P := fun c => isForbiddenInDomain c = false → isOutsideHost c = false) (by decide) hc h

theorem isOutsideHost_of_hexValue? {c : Char} (h : (hexValue? c).isSome) :
    isOutsideHost c = false := by
  have hlt : c.toNat < 128 := by
    have hbound := toNat_toLower c
    unfold hexValue? at h
    split at h
    · rename_i hdigit
      have hdigit := isDigit_iff.1 hdigit
      omega
    split at h
    · rename_i hletter
      obtain ⟨-, hlast⟩ : 97 ≤ c.toLower.toNat ∧ c.toLower.toNat ≤ 102 := by
        simpa [Char.le_def, UInt32.le_iff_toNat_le] using hletter
      split at hbound <;> omega
    · simp at h
  exact of_forall_ofNat (P := fun c => (hexValue? c).isSome → isOutsideHost c = false)
    (by decide) hlt h

theorem isUnbracketed_ipv4Text (address : Nat) : IsUnbracketed (ipv4Text address).toList := by
  rw [toList_ipv4Text]
  refine forall_mem_join (List.forall_mem_singleton.2 (by decide)) fun piece hpiece c hc => ?_
  have hdigit := isDigit_of_mem_decimals hpiece c hc
  have hrange := isDigit_iff.1 hdigit
  exact ⟨by omega, isForbiddenInDomain_digit hdigit⟩

theorem isOutsideHost_colons {groups : List Nat} : ∀ c ∈ colons groups,
    isOutsideHost c = false ∧ c ≠ '[' ∧ c ≠ ']' := by
  refine forall_mem_join (List.forall_mem_singleton.2 (by decide)) fun piece hpiece c hc => ?_
  obtain ⟨n, -, rfl⟩ := List.mem_map.1 hpiece
  have hvalue := of_mem_hexText c hc
  refine ⟨isOutsideHost_of_hexValue? hvalue, ?_, ?_⟩
  · rintro rfl
    cases hvalue
  · rintro rfl
    cases hvalue

theorem isOutsideHost_ipv6Text (groups : List Nat) : ∀ c ∈ ipv6Text groups,
    isOutsideHost c = false ∧ c ≠ '[' ∧ c ≠ ']' := by
  rw [ipv6Text_eq]
  split
  · exact isOutsideHost_colons
  · have hdouble : isOutsideHost ':' = false ∧ ':' ≠ '[' ∧ ':' ≠ ']' := by decide
    have hgap : ∀ c ∈ [':', ':'], isOutsideHost c = false ∧ c ≠ '[' ∧ c ≠ ']' :=
      List.forall_mem_cons.2 ⟨hdouble, List.forall_mem_singleton.2 hdouble⟩
    exact List.forall_mem_append.2
      ⟨List.forall_mem_append.2 ⟨isOutsideHost_colons, hgap⟩, isOutsideHost_colons⟩

/-- How a host of a special URL is written. -/
theorem Host.IsSpecial.text_cases {host : Host} (h : host.IsSpecial) :
    IsUnbracketed host.text.toList ∨
      ∃ s, host.text.toList = '[' :: (s ++ [']']) ∧
        ∀ c ∈ s, isOutsideHost c = false ∧ c ≠ '[' ∧ c ≠ ']' := by
  cases h with
  | @domain labels hne hlabels hsome hallowed hname =>
      have hlow : ∀ c ∈ join ['.'] labels, IsLowAscii c :=
        forall_mem_join (by simp [IsLowAscii]) fun label hlabel => (hlabels label hlabel).low
      refine .inl ?_
      rw [Host.text, String.toList_ofList]
      exact fun c hc => ⟨(hlow c hc).1, hallowed c hc⟩
  | @ipv4 address h => exact .inl (isUnbracketed_ipv4Text address)
  | @ipv6 groups h =>
      exact .inr ⟨ipv6Text groups, by simp [Host.text], isOutsideHost_ipv6Text groups⟩

theorem Host.IsSpecial.isOutsideHost {host : Host} (h : host.IsSpecial) :
    ∀ c ∈ host.text.toList, isOutsideHost c = false := by
  rcases h.text_cases with hplain | ⟨s, hs, hall⟩
  · exact fun c hc => isOutsideHost_of_isForbiddenInDomain (hplain c hc).1 (hplain c hc).2
  · rw [hs]
    simp only [List.forall_mem_cons, List.forall_mem_append]
    exact ⟨rfl, fun c hc => (hall c hc).1, rfl, by simp⟩

theorem splitHost_append {inside : Bool} {s : List Char}
    (hs : ∀ c ∈ s, c ≠ '[' ∧ c ≠ ']' ∧ (c = ':' → inside)) (t : List Char) :
    splitHost inside (s ++ t) = (s ++ (splitHost inside t).1, (splitHost inside t).2) := by
  induction s with
  | nil => rfl
  | cons c s ih =>
      obtain ⟨⟨hopen, hclose, hcolon⟩, hs⟩ := List.forall_mem_cons.1 hs
      have hcut : ¬ (c = ':' ∧ ¬ inside) := fun hcut => hcut.2 (hcolon hcut.1)
      rw [List.cons_append, splitHost, if_neg hcut, if_neg hopen, if_neg hclose, ih hs]
      rfl

/-- A host is cut off at the colon behind it. -/
theorem Host.IsSpecial.splitHost_append {host : Host} (h : host.IsSpecial) (t : List Char) :
    splitHost false (host.text.toList ++ t) =
      (host.text.toList ++ (splitHost false t).1, (splitHost false t).2) := by
  rcases h.text_cases with hplain | ⟨s, hs, hall⟩
  · refine Url.splitHost_append (fun c hc => ?_) t
    have hallowed := (hplain c hc).2
    refine ⟨?_, ?_, ?_⟩
    all_goals
      rintro rfl
      cases hallowed
  · have hinside : Url.splitHost true (_ ++ ']' :: t) = _ := Url.splitHost_append
      (fun c hc => ⟨(hall c hc).2.1, (hall c hc).2.2, fun _ => rfl⟩) (']' :: t)
    rw [hs]
    simp [splitHost, hinside]

end TraceExport.Url
