import TraceExport.Proofs.Line
import Mathlib.Data.List.Basic
import Mathlib.Logic.Function.Iterate

/-!
Renaming there and back. A name that is made longer at its end opens as it did before, so literals,
comments, and words are cut off a renamed script where they were cut off the script itself
(`lexemes_renamed`). Renaming the longer name back therefore gives the script again, unless the
longer name was a word of it before.
-/

namespace TraceExport.Text

/-- What is taken from a text can be taken again in front of any text that opens like the rest. -/
theorem span_taken {p : Char → Bool} {s r : List Char} (h : r.head? = (s.dropWhile p).head?) :
    (s.takeWhile p ++ r).takeWhile p = s.takeWhile p ∧ (s.takeWhile p ++ r).dropWhile p = r := by
  have htaken : ∀ c ∈ s.takeWhile p, p c := fun c hc => List.mem_takeWhile_imp hc
  have hstop : ∀ c ∈ r.head?, p c = false := by
    intro c hc
    have hnot := List.head?_dropWhile_not p s
    rw [← h, Option.mem_def.1 hc] at hnot
    exact hnot
  have hspan := span_append (s := s.takeWhile p) fun _ => hstop
  rwa [List.takeWhile_eq_self_iff.2 htaken, List.dropWhile_eq_nil_iff.2 htaken,
    List.nil_append] at hspan

end TraceExport.Text

namespace TraceExport.Script

open Text Lexeme

/-! ### Ends of literals and comments -/

theorem splitQuoted_taken {mark : Char} (hmark : isQuote mark) {s r : List Char}
    (h : r.head? = (splitQuoted mark s).2.head?) :
    splitQuoted mark ((splitQuoted mark s).1 ++ r) = ((splitQuoted mark s).1, r) := by
  have hslash : mark ≠ '\\' := by
    rintro rfl
    simp [isQuote] at hmark
  fun_induction splitQuoted mark s with
  | case1 =>
      obtain rfl : r = [] := by simpa using h
      rfl
  | case2 =>
      obtain rfl : r = [] := by simpa using h
      rfl
  | case3 c s ih =>
      have hpass := Passes.escaped mark c ((splitQuoted mark s).1 ++ r)
      rw [ih h] at hpass
      exact hpass
  | case4 s => exact Passes.nil.splitQuoted_close hslash r
  | case5 c s hlast hpair hc ih =>
      have hpass := Passes.char hc (ne_backslash hlast hpair) ((splitQuoted mark s).1 ++ r)
      rw [ih h] at hpass
      exact hpass

theorem splitRegex_taken {inClass : Bool} {s r : List Char}
    (h : r.head? = (splitRegex inClass s).2.head?) :
    splitRegex inClass ((splitRegex inClass s).1 ++ r) = ((splitRegex inClass s).1, r) := by
  fun_induction splitRegex inClass s with
  | case1 inClass =>
      obtain rfl : r = [] := by simpa using h
      simp [splitRegex]
  | case2 inClass =>
      obtain rfl : r = [] := by simpa using h
      simp [splitRegex]
  | case3 inClass c s ih => simp [splitRegex, ih h]
  | case4 inClass s hlast hpair =>
      obtain ⟨r, rfl⟩ := List.head?_eq_some_iff.1 h
      simp [splitRegex]
  | case5 inClass s hlast hpair hbreak ih => simp [splitRegex, ih h]
  | case6 inClass s hlast hpair hbreak hopen ih => simp [splitRegex, ih h]
  | case7 inClass c s hlast hpair hbreak hopen hclose hslash =>
      obtain ⟨rfl, hclass⟩ := hslash
      obtain ⟨htake, hdrop⟩ := span_taken h
      simp [splitRegex, hclass, htake, hdrop]
  | case8 inClass c s hlast hpair hbreak hopen hclose hslash ih =>
      rw [List.cons_append, splitRegex_char (ne_backslash hlast hpair) hbreak hopen hclose hslash,
        ih h]

theorem splitComment_taken {s r : List Char} (h : r.head? = (splitComment s).2.head?) :
    splitComment ((splitComment s).1 ++ r) = ((splitComment s).1, r) := by
  obtain ⟨htake, hdrop⟩ := span_taken h
  exact Prod.ext htake hdrop

/-! ### Lexemes of a renamed script -/

/-- The lexeme that renaming puts in the place of another. -/
def Lexeme.relabeled (old new : List Char) : Lexeme → Lexeme
  | word name => word (if name = old then new else name)
  | copied text => copied text

/-- No regular expression can follow a word, and no second word. -/
theorem IsWord.getLast? {w : List Char} (hw : IsWord w) :
    opensRegex w.getLast? = false ∧ endsWord w.getLast? = false := by
  have hopens : "(,=:[!&|?\x7b\x7d;+-*%<>~^".toList.all (!isIdentChar ·) := by decide
  obtain ⟨front, c, rfl⟩ : ∃ front c, w = front ++ [c] := by
    simpa using List.eq_nil_or_concat w |>.resolve_left hw.ne_nil
  have hc : isIdentChar c := hw.letters c (by simp)
  rw [List.getLast?_concat]
  refine ⟨Bool.eq_false_iff.2 fun hmem => ?_, by simp [endsWord, hc]⟩
  have hnot := List.all_eq_true.1 hopens c (by simpa [opensRegex] using hmem)
  simp [hc] at hnot

theorem head?_append_of_rest {taken rest r s : List Char} (hs : taken ++ rest = s)
    (h : r.head? = rest.head?) : (taken ++ r).head? = s.head? := by
  rw [← hs, List.head?_append, List.head?_append, h]

section

variable {old new : List Char} (hnew : IsWord new) (hhead : new.head? = old.head?)

include hhead in
theorem head?_flatMap_renamed (prev before : Option Char) (s : List Char) :
    ((lexemes prev before s).flatMap (renamed old new)).head? = s.head? := by
  fun_cases lexemes prev before s with
  | case1 => rfl
  | case2 => rfl
  | case3 => rfl
  | case4 => rfl
  | case5 c rest hquote hcomment hregex hword name =>
      rw [List.flatMap_cons, renamed]
      split
      · rename_i heq
        have hfirst : new.head? = some c := by
          rw [hhead, ← heq]
          rfl
        rw [List.head?_append, hfirst]
        rfl
      · rfl
  | case6 => rfl

include hnew hhead

/-- A renamed script is cut where the script itself is. -/
theorem lexemes_renamed (prev before : Option Char) (s : List Char) :
    ∀ prev' before', opensRegex prev' = opensRegex prev → endsWord before' = endsWord before →
      lexemes prev' before' ((lexemes prev before s).flatMap (renamed old new)) =
        (lexemes prev before s).map (relabeled old new) := by
  fun_induction lexemes prev before s with
  | case1 =>
      intro prev' before' _ _
      rw [List.flatMap_nil, lexemes]
      rfl
  | case2 prev before c rest hquote literal ih =>
      intro prev' before' _ _
      have htaken := splitQuoted_taken hquote
        (head?_flatMap_renamed hhead (some c) literal.getLast? (splitQuoted c rest).2)
      rw [List.flatMap_cons, List.map_cons, ← ih _ _ rfl rfl, renamed, List.cons_append, lexemes,
        if_pos hquote]
      simp only [htaken]
      rfl
  | case3 prev before c rest hquote hslash comment ih =>
      intro prev' before' hprev _
      have hrest := head?_flatMap_renamed hhead prev comment.getLast? (splitComment rest).2
      have hopens := head?_append_of_rest List.takeWhile_append_dropWhile hrest
      have htaken := splitComment_taken hrest
      rw [List.flatMap_cons, List.map_cons, ← ih _ _ hprev rfl, renamed, List.cons_append, lexemes,
        if_neg hquote, if_pos ⟨hslash.1, hopens.trans hslash.2⟩]
      simp only [htaken]
      rfl
  | case4 prev before c rest hquote hcomment hslash regex ih =>
      intro prev' before' hprev _
      have hrest := head?_flatMap_renamed hhead (some '/') regex.getLast? (splitRegex false rest).2
      have hopens := head?_append_of_rest (splitRegex_append false rest) hrest
      have htaken := splitRegex_taken hrest
      rw [List.flatMap_cons, List.map_cons, ← ih _ _ rfl rfl, renamed, List.cons_append, lexemes,
        if_neg hquote, hopens, if_neg hcomment, hprev, if_pos hslash]
      simp only [htaken]
      rfl
  | case5 prev before c rest hquote hcomment hregex hword name ih =>
      intro prev' before' _ hbefore
      have hname : IsWord name := isWord_cons_takeWhile hword.1 rest
      have hrelabeled : IsWord (if name = old then new else name) := by
        split
        · exact hnew
        · exact hname
      have hrest := head?_flatMap_renamed hhead name.getLast? name.getLast?
        (rest.dropWhile isIdentChar)
      rw [List.flatMap_cons, List.map_cons, ← ih, renamed, lexemes_word hrelabeled]
      · rfl
      · rw [hbefore, hword.2]
      · rw [hrest]
        exact endsWord_head?_dropWhile rest
      · rw [hrelabeled.getLast?.1, hname.getLast?.1]
      · rw [hrelabeled.getLast?.2, hname.getLast?.2]
  | case6 prev before c rest hquote hcomment hregex hword ih =>
      intro prev' before' hprev hbefore
      rw [dite_eq_ite] at ih
      have hrest := head?_flatMap_renamed hhead (if isBlank c then prev else some c) (some c) rest
      rw [List.flatMap_cons, List.map_cons, renamed, List.singleton_append, lexemes, if_neg hquote,
        hrest, if_neg hcomment, hprev, if_neg hregex, hbefore, if_neg hword, ih _ _ ?_ rfl]
      · rfl
      · split
        · exact hprev
        · rfl

end

/-! ### Renaming back -/

/-- What was renamed before renaming back makes no difference. -/
theorem renameFrom_renameFrom {old new : List Char} (hold : IsWord old) (hnew : IsWord new)
    (hhead : new.head? = old.head?) (prev before : Option Char) (s : List Char) :
    renameFrom new old prev before (renameFrom old new prev before s) =
      renameFrom new old prev before s := by
  have hback : ∀ l : Lexeme, (l.relabeled old new).renamed new old = l.renamed new old := by
    intro l
    cases l with
    | copied text => rfl
    | word name =>
        by_cases heq : name = old
        · simp [relabeled, renamed, heq]
        · simp [relabeled, renamed, heq]
  calc renameFrom new old prev before (renameFrom old new prev before s)
      = (lexemes prev before ((lexemes prev before s).flatMap (renamed old new))).flatMap
          (renamed new old) := by
        rw [renameFrom_eq_flatMap hnew, renameFrom_eq_flatMap hold]
    _ = ((lexemes prev before s).map (relabeled old new)).flatMap (renamed new old) := by
        rw [lexemes_renamed hnew hhead prev before s prev before rfl rfl]
    _ = (lexemes prev before s).flatMap (renamed new old) := by
        rw [List.flatMap_map]
        exact List.flatMap_congr fun l _ => hback l
    _ = renameFrom new old prev before s := (renameFrom_eq_flatMap hnew old prev before s).symm

theorem infix_of_mem_lexemes {name s : List Char} {prev before : Option Char}
    (h : word name ∈ lexemes prev before s) : name <:+: s := by
  obtain ⟨front, rest, hsplit⟩ := List.append_of_mem h
  refine ⟨front.flatMap text, rest.flatMap text, ?_⟩
  rw [← flatMap_text_lexemes prev before s, hsplit, List.flatMap_append, List.flatMap_cons,
    List.append_assoc]
  rfl

theorem renameFrom_eq_self {name : List Char} (hname : IsWord name) (new : List Char)
    {prev before : Option Char} {s : List Char} (hfree : ¬ name <:+: s) :
    renameFrom name new prev before s = s := by
  rw [renameFrom_eq_flatMap hname, flatMap_renamed_of_not_mem (mt infix_of_mem_lexemes hfree),
    flatMap_text_lexemes]

/-! ### Rounds -/

/-- How far renaming has come: what it has written, the two characters that it remembers, and what
it has still to read. -/
structure Scan where
  written : List Char
  prev : Option Char
  before : Option Char
  rest : List Char

namespace Scan

def copy (s : Scan) (text : List Char) (prev : Option Char) (rest : List Char) : Scan :=
  ⟨s.written ++ text, prev, text.getLast?, rest⟩

/-- Renaming as a loop. One round copies a literal, a comment or a character, or puts the new name
in the place of the old one. -/
def round (old new : List Char) (s : Scan) : Scan :=
  match s.rest with
  | [] => s
  | c :: rest =>
    if isQuote c then s.copy (c :: (splitQuoted c rest).1) (some c) (splitQuoted c rest).2
    else if c = '/' ∧ rest.head? = some '/' then
      s.copy (c :: (splitComment rest).1) s.prev (splitComment rest).2
    else if c = '/' ∧ opensRegex s.prev then
      s.copy (c :: (splitRegex false rest).1) (some '/') (splitRegex false rest).2
    else
      match (dropPrefix? old (c :: rest)).filter fun after =>
          endsWord s.before && endsWord after.head? with
      | some after => ⟨s.written ++ new, old.getLast?, old.getLast?, after⟩
      | none => s.copy [c] (if isBlank c then s.prev else some c) rest

/-- What there will be when all is read. -/
def result (old new : List Char) (s : Scan) : List Char :=
  s.written ++ renameFrom old new s.prev s.before s.rest

theorem afterName?_eq_filter {name : List Char} (hne : name ≠ []) (before : Option Char)
    (s : List Char) : afterName? name before s =
      (dropPrefix? name s).filter fun after => endsWord before && endsWord after.head? := by
  have hname : name.isEmpty = false := by simpa using hne
  rw [afterName?, hname]
  cases endsWord before with
  | true => simp
  | false => simp

/-- Every round reads something, and what comes out in the end stays the same. An empty name would
be found again and again in the same place. -/
theorem round_spec {old : List Char} (hold : old ≠ []) (new : List Char) {s : Scan}
    (hrest : s.rest ≠ []) :
    (s.round old new).rest.length < s.rest.length ∧
      (s.round old new).result old new = s.result old new := by
  obtain ⟨written, prev, before, rest⟩ := s
  obtain ⟨c, rest, rfl⟩ := List.exists_cons_of_ne_nil hrest
  simp only [round, result]
  rw [renameFrom]
  by_cases hquote : isQuote c
  · simp only [if_pos hquote]
    exact ⟨Nat.lt_succ_of_le (length_splitQuoted_le c rest), by simp [copy]⟩
  by_cases hcomment : c = '/' ∧ rest.head? = some '/'
  · simp only [if_neg hquote, if_pos hcomment]
    exact ⟨Nat.lt_succ_of_le (length_splitComment_le rest), by simp [copy]⟩
  by_cases hregex : c = '/' ∧ opensRegex prev
  · simp only [if_neg hquote, if_neg hcomment, if_pos hregex]
    exact ⟨Nat.lt_succ_of_le (length_splitRegex_le false rest), by simp [copy]⟩
  simp only [if_neg hquote, if_neg hcomment, if_neg hregex, ← afterName?_eq_filter hold]
  cases hafter : afterName? old before (c :: rest) with
  | some after => exact ⟨length_afterName_lt hafter, by simp⟩
  | none => exact ⟨Nat.lt_succ_self _, by simp [copy]⟩

theorem exists_rounds {old : List Char} (hold : old ≠ []) (new : List Char) (s : Scan) :
    ∃ n ≤ s.rest.length, ((round old new)^[n] s).rest = [] ∧
      ((round old new)^[n] s).written = s.result old new := by
  -- The number of rounds is bounded by the characters that are left.
  induction hlength : s.rest.length using Nat.strong_induction_on generalizing s with
  | _ length ih =>
    by_cases hrest : s.rest = []
    · exact ⟨0, Nat.zero_le _, hrest, by simp [result, hrest, renameFrom]⟩
    · obtain ⟨hless, hsame⟩ := round_spec hold new hrest
      obtain ⟨n, hn, hend, hwritten⟩ := ih _ (hlength ▸ hless) (s.round old new) rfl
      exact ⟨n + 1, by omega, hend, hwritten.trans hsame⟩

end Scan

/-- The loop comes to an end, with this text. -/
def Finishes (old new code out : List Char) : Prop :=
  ∃ n ≤ code.length, ((Scan.round old new)^[n] ⟨[], none, none, code⟩).rest = [] ∧
    ((Scan.round old new)^[n] ⟨[], none, none, code⟩).written = out

theorem finishes_rename {old : String} (hold : old.toList ≠ []) (new code : String) :
    Finishes old.toList new.toList code.toList (rename old new code).toList := by
  rw [rename, String.toList_ofList]
  exact Scan.exists_rounds hold new.toList ⟨[], none, none, code.toList⟩

/-- A name that is made longer at its end, by a number for instance, can be made shorter again:
both renamings come to an end, and the script is what it was, provided that the longer name
occurred nowhere in it. -/
theorem rename_rename {old suffix code : String} (hold : IsWord old.toList)
    (hsuffix : ∀ c ∈ suffix.toList, isIdentChar c)
    (hfree : ¬ (old ++ suffix).toList <:+: code.toList) :
    Finishes old.toList (old ++ suffix).toList code.toList
        (rename old (old ++ suffix) code).toList ∧
      Finishes (old ++ suffix).toList old.toList (rename old (old ++ suffix) code).toList
        code.toList ∧
      rename (old ++ suffix) old (rename old (old ++ suffix) code) = code := by
  have hshape : (old ++ suffix).toList = old.toList ++ suffix.toList := String.toList_append
  have hnew : IsWord (old ++ suffix).toList := by
    rw [hshape]
    refine ⟨by simp [hold.ne_nil], fun c hc => ?_⟩
    exact (List.mem_append.1 hc).elim (hold.letters c) (hsuffix c)
  have hhead : (old ++ suffix).toList.head? = old.toList.head? := by
    obtain ⟨c, s, hs⟩ := List.exists_cons_of_ne_nil hold.ne_nil
    rw [hshape, hs]
    rfl
  have hback : rename (old ++ suffix) old (rename old (old ++ suffix) code) = code := by
    apply String.toList_inj.1
    simp only [rename, String.toList_ofList]
    rw [renameFrom_renameFrom hold hnew hhead, renameFrom_eq_self hnew _ hfree]
  have hfinishes := finishes_rename hnew.ne_nil old (rename old (old ++ suffix) code)
  rw [hback] at hfinishes
  exact ⟨finishes_rename hold.ne_nil _ code, hfinishes, hback⟩

/-- A name beside literals, a division and a comment, in a script that breaks off in a literal. -/
def brokenScript : String := "a$ = a$ / /[/a$]/g; // a$\na$.b('a$', \"\\"

theorem rename_rename_broken :
    IsWord "a$".toList ∧ (∀ c ∈ "2".toList, isIdentChar c) ∧
      ¬ ("a$" ++ "2").toList <:+: brokenScript.toList ∧
      rename "a$" ("a$" ++ "2") brokenScript =
        "a$2 = a$2 / /[/a$]/g; // a$\na$2.b('a$', \"\\" ∧
      Finishes "a$".toList ("a$" ++ "2").toList brokenScript.toList
        (rename "a$" ("a$" ++ "2") brokenScript).toList ∧
      Finishes ("a$" ++ "2").toList "a$".toList (rename "a$" ("a$" ++ "2") brokenScript).toList
        brokenScript.toList ∧
      rename ("a$" ++ "2") "a$" (rename "a$" ("a$" ++ "2") brokenScript) = brokenScript := by
  have hword : IsWord "a$".toList := ⟨by decide, List.all_eq_true.1 (by decide)⟩
  have hnumber : ∀ c ∈ "2".toList, isIdentChar c := List.all_eq_true.1 (by decide)
  have hfree : ¬ ("a$" ++ "2").toList <:+: brokenScript.toList := by decide +kernel
  have hlonger : rename "a$" ("a$" ++ "2") brokenScript =
      "a$2 = a$2 / /[/a$]/g; // a$\na$2.b('a$', \"\\" := by decide +kernel
  exact ⟨hword, hnumber, hfree, hlonger, rename_rename hword hnumber hfree⟩

end TraceExport.Script
