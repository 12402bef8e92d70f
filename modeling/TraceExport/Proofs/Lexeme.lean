import TraceExport.Proofs.Identifier
import TraceExport.Script.Rename
import Mathlib.Data.List.TakeWhile

/-!
A script as renaming sees it. Renaming works on characters; here the same text is
cut into words, which may be names, and stretches that are copied whatever they
say: literals, comments, and single characters outside of words. On this cut,
`rename` replaces the words that are the old name and nothing else
(`renameFrom_eq_flatMap`).

Only a slash depends on what comes before it. Text without slashes and quotation
marks is cut by `chop`, which looks at one character at a time.
-/

namespace TraceExport.Text

/-- What is taken from two texts, where it ends at the seam if it comes so far. -/
theorem span_append {p : Char → Bool} {s t : List Char}
    (ht : s.dropWhile p = [] → ∀ c ∈ t.head?, p c = false) :
    (s ++ t).takeWhile p = s.takeWhile p ∧ (s ++ t).dropWhile p = s.dropWhile p ++ t := by
  induction s with
  | nil =>
      cases t with
      | nil => simp
      | cons c t => simp [ht rfl c rfl]
  | cons c s ih =>
      by_cases hc : p c
      · have hrest := ih fun hnone => ht (by simp [hc, hnone])
        simp [hc, hrest.1, hrest.2]
      · simp [hc]

end TraceExport.Text

namespace TraceExport.Script

open Text

inductive Lexeme where
  | word (name : List Char)
  | copied (text : List Char)
deriving DecidableEq, Repr

namespace Lexeme

def text : Lexeme → List Char
  | word name => name
  | copied text => text

def renamed (old new : List Char) : Lexeme → List Char
  | word name => if name = old then new else name
  | copied text => text

end Lexeme

open Lexeme

/-- Cuts a script; `prev` and `before` are those of `renameFrom`. -/
def lexemes (prev before : Option Char) (s : List Char) : List Lexeme :=
  match s with
  | [] => []
  | c :: rest =>
    if isQuote c then
      let literal := c :: (splitQuoted c rest).1
      copied literal :: lexemes (some c) literal.getLast? (splitQuoted c rest).2
    else if c = '/' ∧ rest.head? = some '/' then
      let comment := c :: (splitComment rest).1
      copied comment :: lexemes prev comment.getLast? (splitComment rest).2
    else if c = '/' ∧ opensRegex prev then
      let regex := c :: (splitRegex false rest).1
      copied regex :: lexemes (some '/') regex.getLast? (splitRegex false rest).2
    else if isIdentChar c ∧ endsWord before then
      let name := c :: rest.takeWhile isIdentChar
      word name :: lexemes name.getLast? name.getLast? (rest.dropWhile isIdentChar)
    else
      copied [c] :: lexemes (if isBlank c then prev else some c) (some c) rest
termination_by s.length
decreasing_by
  · exact Nat.lt_succ_of_le (length_splitQuoted_le c rest)
  · exact Nat.lt_succ_of_le (length_splitComment_le rest)
  · exact Nat.lt_succ_of_le (length_splitRegex_le false rest)
  · exact Nat.lt_succ_of_le (List.dropWhile_suffix _).length_le
  · exact Nat.lt_succ_self _

/-! ### Words -/

structure IsWord (w : List Char) : Prop where
  ne_nil : w ≠ []
  letters : ∀ c ∈ w, isIdentChar c

theorem IsBindable.isWord {name : String} (h : IsBindable name) : IsWord name.toList :=
  ⟨h.ne_nil, h.isIdentChar_of_mem⟩

theorem isDigit_of_mem_toString {n : Nat} {c : Char} (hc : c ∈ (toString n).toList) :
    c.isDigit :=
  Nat.isDigit_of_mem_toDigits (b := 10) (by decide) (by decide) (by simpa using hc)

/-- The word that a character opens. -/
theorem isWord_cons_takeWhile {c : Char} (hc : isIdentChar c) (s : List Char) :
    IsWord (c :: s.takeWhile isIdentChar) :=
  ⟨by simp, List.forall_mem_cons.2 ⟨hc, fun _ hd => List.mem_takeWhile_imp hd⟩⟩

theorem isWord_toString (n : Nat) : IsWord (toString n).toList := by
  refine ⟨?_, fun c hc => ?_⟩
  · simp
  · simp [isIdentChar, Char.isAlphanum, isDigit_of_mem_toString hc]

/-- No reserved word ends in a digit. -/
theorem not_suffix_reservedWords {suffix : List Char} (hne : suffix ≠ [])
    (hdigits : ∀ c ∈ suffix, c.isDigit) :
    ∀ word ∈ reservedWords, ¬ suffix <:+ word.toList := by
  have hwords : reservedWords.all (·.toList.all (!·.isDigit)) := by decide
  simp only [List.all_eq_true, Bool.not_eq_true'] at hwords
  intro word hword hsuffix
  obtain ⟨c, s, rfl⟩ := List.exists_cons_of_ne_nil hne
  have hdigit := hdigits c List.mem_cons_self
  rw [hwords word hword c (hsuffix.subset List.mem_cons_self)] at hdigit
  cases hdigit

theorem IsBindable.numbered {name : String} (h : IsBindable name) (n : Nat) :
    IsBindable (name ++ toString n) := by
  obtain ⟨c, s, hname, hc⟩ := h.opens
  refine ⟨⟨c, s ++ (toString n).toList, by rw [String.toList_append, hname]; rfl, hc⟩, ?_, ?_⟩
  · intro d hd
    rw [String.toList_append, List.mem_append] at hd
    rcases hd with hd | hd
    · exact h.letters d hd
    · exact .inl (by simp [Char.isAlphanum, isDigit_of_mem_toString hd])
  · exact isReserved_append (not_suffix_reservedWords (isWord_toString n).ne_nil
      fun d hd => isDigit_of_mem_toString hd) name

theorem isQuote_of_isIdentChar {c : Char} (h : isIdentChar c) : isQuote c = false := by
  have hsingle := ne_of_isIdentChar h (d := '\'') rfl
  have hdouble := ne_of_isIdentChar h (d := '"') rfl
  have hback := ne_of_isIdentChar h (d := '\x60') rfl
  simp [isQuote, hsingle, hdouble, hback]

theorem ne_slash_of_isIdentChar {c : Char} (h : isIdentChar c) : c ≠ '/' :=
  ne_of_isIdentChar h rfl

theorem takeWhile_append_stop {p : Char → Bool} (s : List Char) {d : Char} (hd : p d = false)
    (t : List Char) : (s ++ d :: t).takeWhile p = s.takeWhile p :=
  (span_append fun _ => by simp [hd]).1

theorem dropWhile_append_stop {p : Char → Bool} (s : List Char) {d : Char} (hd : p d = false)
    (t : List Char) : (s ++ d :: t).dropWhile p = s.dropWhile p ++ d :: t :=
  (span_append fun _ => by simp [hd]).2

theorem takeWhile_word {w t : List Char} (hw : ∀ c ∈ w, isIdentChar c) (ht : endsWord t.head?) :
    (w ++ t).takeWhile isIdentChar = w := by
  rw [List.takeWhile_append_of_pos hw]
  cases t with
  | nil => simp
  | cons c t =>
      have hc : isIdentChar c = false := by simpa [endsWord] using ht
      simp [hc]

theorem dropWhile_word {w t : List Char} (hw : ∀ c ∈ w, isIdentChar c) (ht : endsWord t.head?) :
    (w ++ t).dropWhile isIdentChar = t := by
  rw [List.dropWhile_append_of_pos hw]
  cases t with
  | nil => simp
  | cons c t =>
      have hc : isIdentChar c = false := by simpa [endsWord] using ht
      simp [hc]

theorem endsWord_head?_dropWhile (s : List Char) :
    endsWord (s.dropWhile isIdentChar).head? := by
  cases h : s.dropWhile isIdentChar with
  | nil => rfl
  | cons c t =>
      have hne : s.dropWhile isIdentChar ≠ [] := by simp [h]
      have hc : isIdentChar c = false := by
        simpa [h] using List.head_dropWhile_not isIdentChar hne
      simp [endsWord, hc]

/-- Of a whole word, the name found at its start is the word itself. -/
theorem afterName?_word {old w t : List Char} {before : Option Char} (hold : IsWord old)
    (hw : IsWord w) (hbefore : endsWord before) (ht : endsWord t.head?) :
    afterName? old before (w ++ t) = if w = old then some t else none := by
  have hne : old.isEmpty = false := by simpa using hold.ne_nil
  have hopen : afterName? old before (w ++ t) =
      (dropPrefix? old (w ++ t)).filter fun rest => endsWord rest.head? := by
    simp [afterName?, hbefore, hne]
  rw [hopen]
  split
  · rename_i heq
    simp [← heq, ht]
  · rename_i hdiff
    -- Of two names at the start of a text, each as long as it can be, neither
    -- is longer.
    rw [Option.filter_eq_none_iff]
    intro rest hrest hends
    have happ : w ++ t = old ++ rest := dropPrefix?_eq_some.1 hrest
    apply hdiff
    rw [← takeWhile_word hw.letters ht, happ, takeWhile_word hold.letters hends]

/-! ### Renaming on lexemes -/

theorem renameFrom_inside_word (old new t : List Char) {w : List Char}
    (hw : ∀ c ∈ w, isIdentChar c) {b : Char} (hb : isIdentChar b) :
    renameFrom old new (some b) (some b) (w ++ t) =
      w ++ renameFrom old new ((b :: w).getLast?) ((b :: w).getLast?) t := by
  induction w generalizing b with
  | nil => simp
  | cons c w ih =>
      have hc : isIdentChar c := hw c List.mem_cons_self
      have hrest := ih (fun d hd => hw d (List.mem_cons_of_mem c hd)) hc
      have hnone : afterName? old (some b) (c :: (w ++ t)) = none := by
        simp [afterName?, endsWord, hb]
      rw [List.cons_append, renameFrom, isQuote_of_isIdentChar hc]
      simp only [ne_slash_of_isIdentChar hc, false_and, if_false, Bool.false_eq_true]
      split
      · rename_i after hafter
        simp [hnone] at hafter
      · simp only [isBlank_of_isIdentChar hc, Bool.false_eq_true, if_false, hrest,
          List.getLast?_cons_cons, List.cons_append]

/-- A whole word is replaced if it is the old name, and copied otherwise. -/
theorem renameFrom_word {old w t : List Char} (new : List Char) {prev before : Option Char}
    (hold : IsWord old) (hw : IsWord w) (hbefore : endsWord before) (ht : endsWord t.head?) :
    renameFrom old new prev before (w ++ t) =
      (word w).renamed old new ++ renameFrom old new w.getLast? w.getLast? t := by
  have hafter := afterName?_word hold hw hbefore ht
  obtain ⟨c, w, rfl⟩ := List.exists_cons_of_ne_nil hw.ne_nil
  have hc : isIdentChar c := hw.letters c List.mem_cons_self
  have hrest : ∀ d ∈ w, isIdentChar d := fun d hd => hw.letters d (List.mem_cons_of_mem c hd)
  rw [List.cons_append] at hafter ⊢
  rw [renameFrom, isQuote_of_isIdentChar hc]
  simp only [ne_slash_of_isIdentChar hc, false_and, if_false, Bool.false_eq_true, renamed]
  split
  · rename_i after hsome
    rw [hafter] at hsome
    split at hsome
    · rename_i heq
      cases hsome
      rw [if_pos heq, ← heq]
    · simp at hsome
  · rename_i hnone
    rw [hafter] at hnone
    split at hnone
    · simp at hnone
    · rename_i hdiff
      simp only [isBlank_of_isIdentChar hc, Bool.false_eq_true, if_false, if_neg hdiff,
        renameFrom_inside_word old new t hrest hc, List.cons_append]

/-- A name opens no word where none can open. -/
theorem afterName?_eq_none {name : List Char} (hname : IsWord name) {before : Option Char}
    {c : Char} (h : ¬ (isIdentChar c ∧ endsWord before)) (rest : List Char) :
    afterName? name before (c :: rest) = none := by
  obtain ⟨d, name, rfl⟩ := List.exists_cons_of_ne_nil hname.ne_nil
  refine Option.eq_none_iff_forall_ne_some.2 fun after hafter => ?_
  unfold afterName? at hafter
  split at hafter
  · rename_i hstart
    obtain ⟨hdrop, -⟩ := Option.filter_eq_some_iff.1 hafter
    obtain rfl : c = d := by simpa using congrArg List.head? (dropPrefix?_eq_some.1 hdrop)
    exact h ⟨hname.letters c List.mem_cons_self, by simpa using hstart⟩
  · cases hafter

/-- Renaming replaces the words that are the old name and copies everything
else. -/
theorem renameFrom_eq_flatMap {old : List Char} (hold : IsWord old) (new : List Char)
    (prev before : Option Char) (s : List Char) :
    renameFrom old new prev before s = (lexemes prev before s).flatMap (renamed old new) := by
  fun_induction lexemes prev before s with
  | case1 => rw [renameFrom]; rfl
  | case2 prev before c rest hquote literal ih =>
      rw [renameFrom, if_pos hquote, List.flatMap_cons, ← ih]
      rfl
  | case3 prev before c rest hquote hslash comment ih =>
      rw [renameFrom, if_neg hquote, if_pos hslash, List.flatMap_cons, ← ih]
      rfl
  | case4 prev before c rest hquote hcomment hslash regex ih =>
      rw [renameFrom, if_neg hquote, if_neg hcomment, if_pos hslash, List.flatMap_cons, ← ih]
      rfl
  | case5 prev before c rest hquote hcomment hregex hword name ih =>
      have hname : IsWord name := isWord_cons_takeWhile hword.1 rest
      have hsplit : c :: rest = name ++ rest.dropWhile isIdentChar := by
        simp [name, List.takeWhile_append_dropWhile]
      rw [hsplit, renameFrom_word new hold hname hword.2 (endsWord_head?_dropWhile rest),
        List.flatMap_cons, ← ih]
  | case6 prev before c rest hquote hcomment hregex hword ih =>
      have hnone := afterName?_eq_none hold hword rest
      rw [renameFrom, if_neg hquote, if_neg hcomment, if_neg hregex]
      split
      · rename_i after hafter
        rw [hnone] at hafter
        cases hafter
      · rw [dite_eq_ite] at ih
        rw [List.flatMap_cons, ← ih]
        rfl

theorem flatMap_renamed_of_not_mem {old new : List Char} {ls : List Lexeme}
    (h : word old ∉ ls) : ls.flatMap (renamed old new) = ls.flatMap text := by
  induction ls with
  | nil => rfl
  | cons l ls ih =>
      rw [List.mem_cons, not_or] at h
      have hl : l.renamed old new = l.text := by
        cases l with
        | word w =>
            have hne : w ≠ old := fun heq => h.1 (by rw [heq])
            simp [renamed, text, hne]
        | copied t => rfl
      rw [List.flatMap_cons, List.flatMap_cons, hl, ih h.2]

/-- Each word that is replaced changes the length by as much. -/
theorem length_flatMap_renamed (old new : List Char) (ls : List Lexeme) :
    (ls.flatMap (renamed old new)).length + ls.count (word old) * old.length =
      (ls.flatMap text).length + ls.count (word old) * new.length := by
  induction ls with
  | nil => simp
  | cons l ls ih =>
      rw [List.flatMap_cons, List.flatMap_cons, List.length_append, List.length_append]
      by_cases hl : l = word old
      · subst hl
        have htext : (word old).text = old := rfl
        have hrenamed : (word old).renamed old new = new := if_pos rfl
        rw [List.count_cons_self, htext, hrenamed, Nat.add_mul, Nat.add_mul]
        omega
      · have hsame : l.renamed old new = l.text := by
          cases l with
          | word w => exact if_neg fun heq => hl (by rw [heq])
          | copied t => rfl
        rw [List.count_cons_of_ne hl, hsame]
        omega

/-- Cutting a script loses nothing. -/
theorem flatMap_text_lexemes (prev before : Option Char) (s : List Char) :
    (lexemes prev before s).flatMap text = s := by
  fun_induction lexemes prev before s with
  | case1 => rfl
  | case2 prev before c rest hquote literal ih =>
      rw [List.flatMap_cons, ih]
      simp [text, literal, splitQuoted_append]
  | case3 prev before c rest hquote hslash comment ih =>
      rw [List.flatMap_cons, ih]
      simp [text, comment, splitComment, List.takeWhile_append_dropWhile]
  | case4 prev before c rest hquote hcomment hslash regex ih =>
      rw [List.flatMap_cons, ih]
      simp [text, regex, splitRegex_append]
  | case5 prev before c rest hquote hcomment hregex hword name ih =>
      rw [List.flatMap_cons, ih]
      simp [text, name, List.takeWhile_append_dropWhile]
  | case6 prev before c rest hquote hcomment hregex hword ih =>
      rw [dite_eq_ite] at ih
      rw [List.flatMap_cons, ih]
      rfl

/-! ### Text without slashes and quotation marks -/

/-- Puts a character of a word in front of a cut text. -/
def consWord (c : Char) : List Lexeme → List Lexeme
  | word w :: ls => word (c :: w) :: ls
  | ls => word [c] :: ls

/-- Cuts a text into its words and its other characters. -/
def chop : List Char → List Lexeme
  | [] => []
  | c :: s => if isIdentChar c then consWord c (chop s) else copied [c] :: chop s

theorem flatMap_text_consWord (c : Char) (ls : List Lexeme) :
    (consWord c ls).flatMap text = c :: ls.flatMap text := by
  unfold consWord
  split <;> rfl

theorem flatMap_text_chop (s : List Char) : (chop s).flatMap text = s := by
  induction s with
  | nil => rfl
  | cons c s ih =>
      rw [chop]
      split
      · rw [flatMap_text_consWord, ih]
      · rw [List.flatMap_cons, ih]
        rfl

theorem chop_eq_nil {s : List Char} : chop s = [] ↔ s = [] := by
  cases s with
  | nil => simp [chop]
  | cons c s =>
      rw [chop]
      split
      · unfold consWord
        split <;> simp
      · simp

theorem consWord_append {c : Char} {ls ms : List Lexeme} (h : ls ≠ []) :
    consWord c (ls ++ ms) = consWord c ls ++ ms := by
  obtain ⟨l, ls, rfl⟩ := List.exists_cons_of_ne_nil h
  cases l <;> rfl

theorem consWord_chop {c : Char} {t : List Char} (ht : endsWord t.head?) :
    consWord c (chop t) = word [c] :: chop t := by
  cases t with
  | nil => rfl
  | cons d t =>
      have hd : isIdentChar d = false := by simpa [endsWord] using ht
      simp [chop, hd, consWord]

theorem chop_append {s t : List Char} (ht : endsWord t.head?) :
    chop (s ++ t) = chop s ++ chop t := by
  induction s with
  | nil => rfl
  | cons c s ih =>
      rw [List.cons_append, chop, chop, ih]
      split
      · rcases eq_or_ne s [] with rfl | hs
        · exact consWord_chop ht
        · exact consWord_append (mt chop_eq_nil.1 hs)
      · rfl

theorem chop_append_of_last {s t : List Char} (hs : endsWord s.getLast?) :
    chop (s ++ t) = chop s ++ chop t := by
  induction s with
  | nil => rfl
  | cons c s ih =>
      rw [List.cons_append, chop, chop]
      rcases eq_or_ne s [] with rfl | hne
      · have hc : isIdentChar c = false := by simpa [endsWord] using hs
        simp [hc, chop]
      · have hlast : (c :: s).getLast? = s.getLast? := by
          obtain ⟨d, s, rfl⟩ := List.exists_cons_of_ne_nil hne
          rw [List.getLast?_cons_cons]
        rw [ih (by rwa [← hlast])]
        split
        · exact consWord_append (mt chop_eq_nil.1 hne)
        · rfl

theorem chop_word {w : List Char} (hw : IsWord w) : chop w = [word w] := by
  obtain ⟨hne, hletters⟩ := hw
  induction w with
  | nil => exact absurd rfl hne
  | cons c w ih =>
      rw [chop, if_pos (hletters c List.mem_cons_self)]
      rcases eq_or_ne w [] with rfl | hw
      · rfl
      · rw [ih hw fun d hd => hletters d (List.mem_cons_of_mem c hd)]
        rfl

/-- Text in which renaming sees nothing but words and single characters. -/
def IsPlain (s : List Char) : Prop := ∀ c ∈ s, isQuote c = false ∧ c ≠ '/'

instance (s : List Char) : Decidable (IsPlain s) :=
  List.decidableBAll (p := fun c => isQuote c = false ∧ c ≠ '/') s

theorem IsPlain.append {s t : List Char} (hs : IsPlain s) (ht : IsPlain t) : IsPlain (s ++ t) :=
  fun c hc => (List.mem_append.1 hc).elim (hs c) (ht c)

theorem IsWord.isPlain {w : List Char} (hw : IsWord w) : IsPlain w :=
  fun c hc => ⟨isQuote_of_isIdentChar (hw.letters c hc), ne_slash_of_isIdentChar (hw.letters c hc)⟩

/-- The last character that is not blank, or else the one before the text. -/
def lastVisible (prev : Option Char) (s : List Char) : Option Char :=
  s.foldl (fun prev c => if isBlank c then prev else some c) prev

theorem lastVisible_append (prev : Option Char) (s t : List Char) :
    lastVisible prev (s ++ t) = lastVisible (lastVisible prev s) t :=
  List.foldl_append

theorem lastVisible_word {w : List Char} (hw : IsWord w) (prev : Option Char) :
    lastVisible prev w = w.getLast? := by
  obtain ⟨hne, hletters⟩ := hw
  induction w generalizing prev with
  | nil => exact absurd rfl hne
  | cons c w ih =>
      have hc := isBlank_of_isIdentChar (hletters c List.mem_cons_self)
      have hstep : lastVisible prev (c :: w) = lastVisible (some c) w := by
        simp [lastVisible, hc]
      rw [hstep]
      cases w with
      | nil => rfl
      | cons d w =>
          rw [List.getLast?_cons_cons]
          exact ih (some c) (by simp) fun e he => hletters e (List.mem_cons_of_mem c he)

theorem lexemes_word {w t : List Char} {prev before : Option Char} (hw : IsWord w)
    (hbefore : endsWord before) (ht : endsWord t.head?) :
    lexemes prev before (w ++ t) = word w :: lexemes w.getLast? w.getLast? t := by
  obtain ⟨c, w, rfl⟩ := List.exists_cons_of_ne_nil hw.ne_nil
  have hc : isIdentChar c := hw.letters c List.mem_cons_self
  have hrest : ∀ d ∈ w, isIdentChar d := fun d hd => hw.letters d (List.mem_cons_of_mem c hd)
  rw [List.cons_append, lexemes, isQuote_of_isIdentChar hc]
  simp [ne_slash_of_isIdentChar hc, hc, hbefore, takeWhile_word hrest ht, dropWhile_word hrest ht]

theorem lexemes_char {c : Char} {t : List Char} {prev before : Option Char}
    (hquote : isQuote c = false) (hslash : c ≠ '/') (hc : isIdentChar c = false) :
    lexemes prev before (c :: t) =
      copied [c] :: lexemes (if isBlank c then prev else some c) (some c) t := by
  rw [lexemes]
  simp [hquote, hslash, hc]

/-- A run of characters of identifiers, if there are any, is cut off together
with the character after it. -/
theorem lexemes_run {w t : List Char} {d : Char} {prev before : Option Char}
    (hw : ∀ c ∈ w, isIdentChar c) (hbefore : endsWord before) (hquote : isQuote d = false)
    (hslash : d ≠ '/') (hd : isIdentChar d = false) :
    lexemes prev before (w ++ d :: t) =
      chop (w ++ [d]) ++ lexemes (lastVisible prev (w ++ [d])) (some d) t := by
  have hends : endsWord (d :: t).head? := by simp [endsWord, hd]
  have hchop : chop [d] = [copied [d]] := by simp [chop, hd]
  rcases eq_or_ne w [] with rfl | hne
  · rw [List.nil_append, List.nil_append, lexemes_char hquote hslash hd, hchop]
    rfl
  · have hword : IsWord w := ⟨hne, hw⟩
    rw [lexemes_word hword hbefore hends, lexemes_char hquote hslash hd,
      chop_append (by simpa [endsWord] using hd), chop_word hword, hchop, lastVisible_append,
      lastVisible_word hword]
    rfl

/-- Plain text up to a character that is in no word is cut by itself. -/
theorem lexemes_plain_append {s t : List Char} {d : Char} {prev before : Option Char}
    (hs : IsPlain (s ++ [d])) (hd : isIdentChar d = false) (hbefore : endsWord before) :
    lexemes prev before (s ++ d :: t) =
      chop (s ++ [d]) ++ lexemes (lastVisible prev (s ++ [d])) (some d) t := by
  -- Each round takes a word, if there is one, and the character after it.
  induction hn : s.length using Nat.strong_induction_on generalizing s prev before with
  | _ n ih =>
    obtain ⟨w, r, hw, hr, rfl⟩ : ∃ w r, (∀ c ∈ w, isIdentChar c) ∧ endsWord r.head? ∧ s = w ++ r :=
      ⟨s.takeWhile isIdentChar, s.dropWhile isIdentChar, fun c hc => List.mem_takeWhile_imp hc,
        endsWord_head?_dropWhile s, List.takeWhile_append_dropWhile.symm⟩
    cases r with
    | nil =>
        rw [List.append_nil] at hs ⊢
        exact lexemes_run hw hbefore (hs d (by simp)).1 (hs d (by simp)).2 hd
    | cons e r =>
        have he : isIdentChar e = false := by simpa [endsWord] using hr
        have heplain := hs e (by simp)
        have hrplain : IsPlain (r ++ [d]) := fun c hc => hs c (by
          simp only [List.append_assoc, List.mem_append, List.cons_append, List.mem_cons] at hc ⊢
          exact .inr (.inr (by simpa using hc)))
        have hlen : r.length < n := by
          rw [← hn]
          simp
          omega
        have hsplit : w ++ e :: r ++ [d] = (w ++ [e]) ++ (r ++ [d]) := by simp
        have hlast : endsWord (w ++ [e]).getLast? := by
          rw [List.getLast?_concat]
          simp [endsWord, he]
        have hchop : chop (w ++ e :: r ++ [d]) = chop (w ++ [e]) ++ chop (r ++ [d]) := by
          rw [hsplit, chop_append_of_last hlast]
        have hseen : lastVisible prev (w ++ e :: r ++ [d]) =
            lastVisible (lastVisible prev (w ++ [e])) (r ++ [d]) := by
          rw [hsplit, lastVisible_append]
        rw [hchop, hseen, List.append_assoc, List.cons_append,
          lexemes_run hw hbefore heplain.1 heplain.2 he,
          ih r.length hlen hrplain (by simp [endsWord, he]) rfl, List.append_assoc]

theorem lexemes_plain {s : List Char} {d : Char} {prev before : Option Char}
    (hs : IsPlain (s ++ [d])) (hd : isIdentChar d = false) (hbefore : endsWord before) :
    lexemes prev before (s ++ [d]) = chop (s ++ [d]) := by
  rw [lexemes_plain_append hs hd hbefore, lexemes, List.append_nil]

end TraceExport.Script
