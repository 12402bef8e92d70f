import TraceExport.Proofs.Host
import TraceExport.Proofs.Printed

/-!
Special URLs as they are written. Each part of such a URL is read as it was written, and no mark in
it is taken for the end of another part; so the text of a URL is read as this URL (`parse?_text`).
-/

namespace TraceExport.Url

open Text

/-! ### Authorities -/

/-- An authority of a special URL, as it is kept. -/
structure Authority.IsSpecial (scheme : String) (a : Authority) : Prop where
  username : ∀ c ∈ a.username.toList, isEscapedInUserinfo c = false
  password : ∀ password ∈ a.password, password.toList ≠ [] ∧
    ∀ c ∈ password.toList, isEscapedInUserinfo c = false
  host : ∃ host, a.host = some host ∧ host.IsSpecial
  port : ∀ port ∈ a.port, port < 65536 ∧ usualPort? scheme ≠ some port

theorem escape_ne_nil {escaped : Char → Bool} {s : List Char} (h : s ≠ []) :
    escape escaped s ≠ [] := by
  obtain ⟨c, s, rfl⟩ := List.exists_cons_of_ne_nil h
  obtain ⟨b, bs, hbytes, -⟩ := utf8EncodeChar_head c
  rw [escape, List.flatMap_cons]
  split
  · simp [hbytes, escapeByte]
  · simp

theorem escaped_userinfo (s : List Char) :
    ∀ c ∈ escape isEscapedInUserinfo s, isEscapedInUserinfo c = false :=
  forall_mem_escape ⟨rfl, by decide⟩ fun _ _ hc => hc

theorem of_readUserinfo {s : List Char} {username : String} {password : Option String}
    (h : readUserinfo s = (username, password)) :
    (∀ c ∈ username.toList, isEscapedInUserinfo c = false) ∧
      ∀ text ∈ password, text.toList ≠ [] ∧ ∀ c ∈ text.toList, isEscapedInUserinfo c = false := by
  unfold readUserinfo at h
  simp only at h
  split at h
  · cases h
    exact ⟨by simpa using escaped_userinfo _, by simp⟩
  · cases h
    exact ⟨by simpa using escaped_userinfo _, by simp⟩
  · rename_i hsome _
    cases h
    refine ⟨by simpa using escaped_userinfo _, ?_⟩
    rintro text ⟨⟩
    rw [String.toList_ofList]
    exact ⟨escape_ne_nil hsome, escaped_userinfo _⟩

theorem of_readPort? {scheme : String} {s : List Char} {port : Option Nat}
    (h : readPort? scheme s = some port) :
    ∀ n ∈ port, n < 65536 ∧ usualPort? scheme ≠ some n := by
  unfold readPort? at h
  split at h
  · cases h
    simp
  split at h
  · split at h
    · split at h
      · cases h
        split
        · simp
        · rename_i hlt hunusual
          rintro n ⟨⟩
          exact ⟨hlt, hunusual⟩
      · simp at h
    · simp at h
  · simp at h

theorem isSpecial_of_readAuthority? {scheme : String} {last : Bool} {s : List Char} {a : Authority}
    {path : UrlPath} (h : readAuthority? .special scheme last s = some (a, path)) :
    a.IsSpecial scheme := by
  obtain ⟨_, _, _, hostPort, -, -, huser, hread, -⟩ := of_readAuthority? h
  obtain ⟨husername, hpassword⟩ := of_readUserinfo huser
  unfold readHostPort? at hread
  simp only [SchemeKind.isSpecial, Bool.true_or, if_true, Option.bind_eq_bind] at hread
  split at hread
  · simp at hread
  · obtain ⟨host, hhost, hread⟩ := Option.bind_eq_some_iff.1 hread
    obtain ⟨port, hport, hread⟩ := Option.bind_eq_some_iff.1 hread
    obtain ⟨hsame, hsamePort⟩ := Prod.mk.inj (Option.some.inj hread)
    exact {
      username := husername
      password := hpassword
      host := ⟨host, hsame.symm, isSpecial_of_specialHost? hhost⟩
      port := hsamePort ▸ of_readPort? hport }

theorem splitUserinfo_of_not_mem {s : List Char} (h : '@' ∉ s) : splitUserinfo s = (none, s) := by
  simp [splitUserinfo, h]

theorem splitUserinfo_append {t : List Char} (h : '@' ∉ t) (s : List Char) :
    splitUserinfo (s ++ '@' :: t) = (some s, t) := by
  have hall : ∀ c ∈ t.reverse, (c != '@') = true := fun c hc =>
    ne_mark_of_not_mem h c (List.mem_reverse.1 hc)
  have hhost : ((s ++ '@' :: t).reverse.takeWhile (· != '@')).reverse = t := by
    rw [List.reverse_append, List.reverse_cons, List.append_assoc,
      List.takeWhile_append_of_pos hall]
    simp
  have hfront : (s ++ '@' :: t).take ((s ++ '@' :: t).length - t.length - 1) = s := by
    rw [List.length_append, List.length_cons]
    exact List.take_left' (by omega)
  have hmem : (s ++ '@' :: t).contains '@' = true := by simp
  rw [splitUserinfo, if_pos hmem]
  simp only [hhost, hfront]

namespace Authority

/-- The name and the password of a user, without the at-sign behind them. -/
def user (a : Authority) : Option (List Char) :=
  match a.password with
  | some password => some (a.username.toList ++ ':' :: password.toList)
  | none => if a.username = "" then none else some a.username.toList

/-- The port, with the colon in front of it. -/
def portText (a : Authority) : List Char :=
  match a.port with
  | some port => ':' :: Nat.toDigits 10 port
  | none => []

theorem toList_userinfo (a : Authority) :
    a.userinfo.toList = match a.user with | some s => s ++ ['@'] | none => [] := by
  unfold userinfo user
  cases a.password with
  | some password => simp
  | none => 
      simp only
      split <;> simp

variable {scheme : String} {a : Authority}

/-- A port is read as it was written, unless it is the usual one. -/
theorem readPort?_portText
    (h : ∀ port ∈ a.port, port < 65536 ∧ usualPort? scheme ≠ some port) :
    ∃ port, splitHost false a.portText = ([], port) ∧
      readPort? scheme (port.getD []) = some a.port := by
  unfold portText
  cases hport : a.port with
  | none => exact ⟨none, rfl, rfl⟩
  | some port =>
      obtain ⟨hlt, hunusual⟩ := h port hport
      refine ⟨some (Nat.toDigits 10 port), rfl, ?_⟩
      have hdigits : (Nat.toDigits 10 port).all Char.isDigit :=
        List.all_eq_true.2 fun c hc => Nat.isDigit_of_mem_toDigits (by decide) (by decide) hc
      have hne : (Nat.toDigits 10 port).isEmpty = false := by simp [Nat.toDigits_ne_nil]
      have hnumber := number?_toDigits (by decide : 1 < 10) (by decide) port
      simp [readPort?, hne, hdigits, hnumber, hlt, hunusual]

theorem IsSpecial.readUserinfo_user (h : a.IsSpecial scheme) :
    readUserinfo (a.user.getD []) = (a.username, a.password) := by
  have hcolon : ':' ∉ a.username.toList := not_mem_of_escaped h.username rfl
  unfold user
  cases hpassword : a.password with
  | some password =>
      obtain ⟨hsome, hwritten⟩ := h.password password hpassword
      simp [readUserinfo, cutAt_mark hcolon, escape_eq_self h.username, escape_eq_self hwritten]
  | none =>
      simp only
      split
      · rename_i hempty
        simp [readUserinfo, cutAt, hempty, escape]
      · simp [readUserinfo, cutAt_of_not_mem hcolon, escape_eq_self h.username]

/-- A mark that ends an authority, or a character that is no part of one. -/
def isOutside (c : Char) : Bool := isAlwaysEscaped c || " /\\?#".toList.contains c

theorem isOutside_of_isEscapedInUserinfo {c : Char} (h : isEscapedInUserinfo c = false) :
    isOutside c = false := by
  simp only [isEscapedInUserinfo, isEscapedInPath, isEscapedInFragment, Bool.or_eq_false_iff] at h
  simp_all [isOutside]

theorem isOutside_of_isOutsideHost {c : Char} (h : isOutsideHost c = false) :
    isOutside c = false := by
  simp only [isOutsideHost, Bool.or_eq_false_iff] at h
  simp_all [isOutside]

theorem isOutsideHost_portText (a : Authority) : ∀ c ∈ a.portText, isOutsideHost c = false := by
  unfold portText
  split
  · refine List.forall_mem_cons.2 ⟨rfl, fun c hc => ?_⟩
    have hdigit : c.isDigit := Nat.isDigit_of_mem_toDigits (by decide) (by decide) hc
    exact isOutsideHost_of_isForbiddenInDomain (by have := isDigit_iff.1 hdigit; omega)
      (isForbiddenInDomain_digit hdigit)
  · simp

theorem toList_text {host : Host} (hhost : a.host = some host) :
    a.text.toList = (match a.user with | some s => s ++ ['@'] | none => []) ++
      (host.text.toList ++ a.portText) := by
  have huser := toList_userinfo a
  cases hport : a.port <;> simp [text, huser, hhost, portText, hport]

theorem IsSpecial.isOutside_text (h : a.IsSpecial scheme) :
    ∀ c ∈ a.text.toList, isOutside c = false := by
  obtain ⟨host, hhost, hspecial⟩ := h.host
  have husername : ∀ c ∈ a.username.toList, isOutside c = false := fun c hc =>
    isOutside_of_isEscapedInUserinfo (h.username c hc)
  have huser : ∀ s ∈ a.user, ∀ c ∈ s, isOutside c = false := by
    unfold user
    cases hpassword : a.password with
    | some password =>
        rintro s ⟨⟩
        exact List.forall_mem_append.2 ⟨husername, List.forall_mem_cons.2 ⟨rfl, fun c hc =>
          isOutside_of_isEscapedInUserinfo ((h.password password hpassword).2 c hc)⟩⟩
    | none =>
        simp only
        split
        · simp
        · rintro s ⟨⟩
          exact husername
  rw [toList_text hhost]
  refine List.forall_mem_append.2 ⟨?_, List.forall_mem_append.2 ⟨?_, ?_⟩⟩
  · cases hname : a.user with
    | none => simp
    | some s =>
        exact List.forall_mem_append.2
          ⟨huser s hname, List.forall_mem_singleton.2 (by decide)⟩
  · exact fun c hc => isOutside_of_isOutsideHost (hspecial.isOutsideHost c hc)
  · exact fun c hc => isOutside_of_isOutsideHost (isOutsideHost_portText a c hc)

theorem IsSpecial.isSlash_text (h : a.IsSpecial scheme) :
    ∀ c ∈ a.text.toList, SchemeKind.special.isSlash c = false := by
  intro c hc
  have houtside := h.isOutside_text c hc
  rw [SchemeKind.isSlash]
  simp_all [isOutside]

theorem IsSpecial.text_ne_nil (h : a.IsSpecial scheme) : a.text.toList ≠ [] := by
  obtain ⟨host, hhost, hspecial⟩ := h.host
  have hsome := hspecial.text_ne_nil
  rw [toList_text hhost]
  simp [hsome]

theorem IsSpecial.readHostPort? (h : a.IsSpecial scheme) {host : Host}
    (hhost : a.host = some host) :
    Url.readHostPort? .special scheme (host.text.toList ++ a.portText) = some (a.host, a.port) := by
  obtain ⟨_, hsame, hspecial⟩ := h.host
  obtain rfl : host = _ := Option.some.inj (hhost.symm.trans hsame)
  obtain ⟨port, hsplit, hport⟩ := readPort?_portText h.port
  have hcut := hspecial.splitHost_append a.portText
  have hempty : host.text.toList.isEmpty = false := by simpa using hspecial.text_ne_nil
  rw [hsplit, List.append_nil] at hcut
  rw [Url.readHostPort?, hcut]
  simp only [hempty, SchemeKind.isSpecial, hspecial.read, hport, hhost, Bool.false_eq_true,
    if_false, if_true, Option.bind_eq_bind, Option.bind_some, Option.pure_def]

/-- An authority is read as it was written, up to the path behind it. -/
theorem IsSpecial.readAuthority? (h : a.IsSpecial scheme) (last : Bool) {path : UrlPath}
    (hpath : IsPath path) : Url.readAuthority? .special scheme last
      (a.text.toList ++ path.text.toList) = some (a, path) := by
  obtain ⟨segments, hne, hsegments, rfl⟩ := hpath
  obtain ⟨host, hhost, hspecial⟩ := h.host
  have hinside : ∀ c ∈ a.text.toList, (!SchemeKind.special.isSlash c) = true := fun c hc => by
    rw [h.isSlash_text c hc, Bool.not_false]
  have hsplit : splitAuthority .special (a.text.toList ++ (ofSegments segments).text.toList) =
      (a.text.toList, (ofSegments segments).text.toList) := by
    rw [splitAuthority_special, text_ofSegments hne, List.takeWhile_append_of_pos hinside,
      List.dropWhile_append_of_pos hinside]
    simp [SchemeKind.isSlash]
  have hat : '@' ∉ host.text.toList ++ a.portText :=
    not_mem_of_escaped (List.forall_mem_append.2
      ⟨hspecial.isOutsideHost, isOutsideHost_portText a⟩) rfl
  have huser : splitUserinfo a.text.toList = (a.user, host.text.toList ++ a.portText) := by
    rw [toList_text hhost]
    cases a.user with
    | none => exact splitUserinfo_of_not_mem hat
    | some s =>
        rw [List.append_assoc, List.singleton_append]
        exact splitUserinfo_append hat s
  have hempty : (host.text.toList ++ a.portText).isEmpty = false := by
    simp [hspecial.text_ne_nil]
  have hroot : pathAfterAuthority .special (ofSegments segments).text.toList =
      ofSegments segments := by
    rw [text_ofSegments hne, pathAfterAuthority, if_pos (by decide),
      pathSegments_join hne hsegments]
  have hsome : a.host ≠ none := by simp [hhost]
  rw [Url.readAuthority?, hsplit]
  simp [huser, hempty, h.readUserinfo_user, h.readHostPort? hhost, hroot, hsome]

end Authority

/-! ### Whole URLs -/

theorem mem_specialPorts {scheme : String} (h : SchemeKind.of scheme = .special) :
    scheme ∈ specialPorts.map Prod.fst := by
  unfold SchemeKind.of at h
  split at h
  · simp at h
  split at h
  · rename_i hport
    simp only [usualPort?, Option.isSome_map, List.find?_isSome] at hport
    obtain ⟨entry, hentry, hscheme⟩ := hport
    exact List.mem_map.2 ⟨entry, hentry, by simpa using hscheme⟩
  · simp at h

theorem isScheme_special {scheme : String} (h : SchemeKind.of scheme = .special) :
    IsScheme scheme.toList := by
  have hmem := mem_specialPorts h
  simp only [specialPorts, List.map_cons, List.map_nil, List.mem_cons, List.not_mem_nil,
    or_false] at hmem
  rcases hmem with rfl | rfl | rfl | rfl | rfl
  all_goals exact ⟨⟨_, rfl, by decide⟩, List.all_eq_true.1 (by decide), by decide⟩

/-- A special URL, as it is kept. -/
structure IsSpecial (u : Url) : Prop where
  scheme : SchemeKind.of u.scheme = .special
  authority : ∃ a, u.authority = some a ∧ a.IsSpecial u.scheme
  tail : IsTail u

theorem isSpecial_of_parse? {text : String} {u : Url} (h : parse? text = some u)
    (hscheme : SchemeKind.of u.scheme = .special) : u.IsSpecial := by
  obtain ⟨-, fragment, -, query, body, -, -, -, hbody, -, -⟩ := of_parse? h
  obtain ⟨a, hauthority, hread⟩ := of_readBody? hscheme hbody
  exact ⟨hscheme, ⟨a, hauthority, isSpecial_of_readAuthority? hread⟩, isTail_of_parse? h hscheme⟩

theorem isBehindPath_of_isOutside {c : Char} (h : Authority.isOutside c = false) :
    isBehindPath c = false := by
  simp only [Authority.isOutside, Bool.or_eq_false_iff] at h
  simp_all [isBehindPath]

/-- Behind the scheme of a URL with an authority no mark stands. -/
theorem isBehindPath_body {u : Url} {a : Authority} (ha : u.authority = some a)
    (htext : ∀ c ∈ a.text.toList, Authority.isOutside c = false)
    (hpath : ∀ c ∈ u.path.text.toList, isEscapedInPath c = false) :
    ∀ c ∈ u.body, isBehindPath c = false := by
  rw [body_of_authority ha]
  refine List.forall_mem_cons.2 ⟨rfl, List.forall_mem_cons.2 ⟨rfl, ?_⟩⟩
  exact List.forall_mem_append.2 ⟨fun c hc => isBehindPath_of_isOutside (htext c hc),
    fun c hc => isBehindPath_of_isEscapedInPath (hpath c hc)⟩

namespace IsSpecial

variable {u : Url} {a : Authority}

theorem isBehindPath_body (h : u.IsSpecial) : ∀ c ∈ u.body, isBehindPath c = false := by
  obtain ⟨a, ha, hspecial⟩ := h.authority
  exact Url.isBehindPath_body ha hspecial.isOutside_text h.tail.path.written

theorem readBody?_body (h : u.IsSpecial) (last : Bool) :
    readBody? u.scheme last u.body = some (u.authority, u.path) := by
  obtain ⟨a, ha, hspecial⟩ := h.authority
  have hsolid := (isPrintable_of_isBehindPath h.isBehindPath_body).solid_eq_self
  have hbody : u.body.dropWhile SchemeKind.special.isSlash =
      a.text.toList ++ u.path.text.toList := by
    obtain ⟨c, s, hcons⟩ := List.exists_cons_of_ne_nil hspecial.text_ne_nil
    have hfirst := hspecial.isSlash_text c (hcons ▸ List.mem_cons_self)
    rw [body_of_authority ha, hcons, List.cons_append, List.dropWhile_cons_of_pos rfl,
      List.dropWhile_cons_of_pos rfl, List.dropWhile_cons_of_neg (by simp [hfirst])]
  have hread := hspecial.readAuthority? last h.tail.path
  rw [readBody?, h.scheme, hsolid]
  simp only [hbody, hread, Option.map_some, ha]

theorem isWritten (h : u.IsSpecial) : u.IsWritten := by
  refine .of_visible (isScheme_special h.scheme) h.isBehindPath_body ?_ h.tail.fragment
  rw [isEscapedInQueryOf, h.scheme]
  exact h.tail.query

/-- The text of a special URL is read as this URL. -/
theorem parse?_text (h : u.IsSpecial) : parse? u.text = some u :=
  h.isWritten.parse?_text_iff.2 (h.readBody?_body _)

end IsSpecial

end TraceExport.Url
