import TraceExport.Proofs.Literal

/-!
A line of a script that somebody else has written. Whatever stands in front of
the semicolon at its end, scanning the line goes one of two ways: either the
line break is seen as such, and what follows is scanned afresh, or a quotation
mark has been left open, and what follows counts as text until a quotation mark
closes it (`lineEnds`). Comments and regular expressions end with the line.
-/

namespace TraceExport.Script

open Text Lexeme

/-- A text that cannot close a literal. -/
def IsQuoteless (s : List Char) : Prop := ∀ c ∈ s, isQuote c = false ∧ c ≠ '\\'

/-- The end of a line, and what follows it. -/
abbrev lineEnd (t : List Char) : List Char := ';' :: '\n' :: t

theorem isQuoteless_lineEnd {t : List Char} (ht : IsQuoteless t) : IsQuoteless (lineEnd t) := by
  intro c hc
  simp only [lineEnd, List.mem_cons] at hc
  rcases hc with rfl | rfl | hc
  · decide
  · decide
  · exact ht c hc

theorem splitQuoted_quoteless {mark : Char} (hmark : isQuote mark) {t : List Char}
    (ht : IsQuoteless t) : splitQuoted mark t = (t, []) := by
  have hpass : Passes mark t := .of_chars fun c hc =>
    ⟨by rintro rfl; simpa [hmark] using (ht c hc).1, (ht c hc).2⟩
  simpa [splitQuoted] using hpass []

/-! ### Literals and regular expressions at the end of a line -/

/-- Neither does the text open with an escape nor is it a lone backslash. -/
theorem ne_backslash {c : Char} {s : List Char} (hlast : c = '\\' → s = [] → False)
    (hpair : ∀ d r, c = '\\' → s = d :: r → False) : c ≠ '\\' := by
  rintro rfl
  cases s with
  | nil => exact hlast rfl rfl
  | cons d s => exact hpair d s rfl rfl

/-- A literal is closed on the line, or else it is left open and takes what follows too. -/
def ClosesOnLine (mark : Char) (e : List Char) : Prop :=
  (∃ literal rest, e = literal ++ rest ∧ ∀ u, splitQuoted mark (e ++ u) = (literal, rest ++ u)) ∨
    ∀ t, IsQuoteless t → splitQuoted mark (e ++ lineEnd t) = (e ++ lineEnd t, [])

theorem ClosesOnLine.pass {mark : Char} {s e : List Char} (hs : Passes mark s)
    (h : ClosesOnLine mark e) : ClosesOnLine mark (s ++ e) := by
  rcases h with ⟨literal, rest, rfl, hsplit⟩ | hopen
  · refine .inl ⟨s ++ literal, rest, (List.append_assoc ..).symm, fun u => ?_⟩
    rw [List.append_assoc, hs, hsplit]
  · refine .inr fun t ht => ?_
    rw [List.append_assoc, hs, hopen t ht]

theorem closesOnLine {mark : Char} (hmark : isQuote mark) (e : List Char) :
    ClosesOnLine mark e := by
  have hslash : mark ≠ '\\' := by
    rintro rfl
    simp [isQuote] at hmark
  fun_induction splitQuoted mark e with
  | case1 => exact .inr fun t ht => splitQuoted_quoteless hmark (isQuoteless_lineEnd ht)
  | case2 =>
      -- The backslash takes the semicolon with it.
      refine .inr fun t ht => ?_
      have hrest : IsQuoteless ('\n' :: t) :=
        fun c hc => isQuoteless_lineEnd ht c (List.mem_cons_of_mem _ hc)
      have hpass := Passes.escaped mark ';' ('\n' :: t)
      rw [splitQuoted_quoteless hmark hrest] at hpass
      exact hpass
  | case3 c s ih => exact ih.pass (.escaped mark c)
  | case4 s => exact .inl ⟨[mark], s, rfl, fun u => Passes.nil.splitQuoted_close hslash (s ++ u)⟩
  | case5 c s hlast hpair hc ih => exact ih.pass (.char hc (ne_backslash hlast hpair))

/-- Something ends before the line does, or takes the rest of the line and ends at the break. -/
def EndsOnLine (split : List Char → List Char × List Char) (e : List Char) : Prop :=
  (∃ taken rest, e = taken ++ rest ∧ ∀ t, split (e ++ lineEnd t) = (taken, rest ++ lineEnd t)) ∨
    ∀ t, split (e ++ lineEnd t) = (e ++ [';'], '\n' :: t)

theorem EndsOnLine.skip {split split' : List Char → List Char × List Char} {e : List Char}
    (h : EndsOnLine split' e) (s : List Char)
    (hskip : ∀ u, split (s ++ u) = (s ++ (split' u).1, (split' u).2)) :
    EndsOnLine split (s ++ e) := by
  rcases h with ⟨taken, rest, rfl, hsplit⟩ | hline
  · refine .inl ⟨s ++ taken, rest, (List.append_assoc ..).symm, fun t => ?_⟩
    rw [List.append_assoc, hskip, hsplit]
  · refine .inr fun t => ?_
    rw [List.append_assoc, hskip, hline, List.append_assoc]

theorem splitRegex_char {inClass : Bool} {c : Char} (hback : c ≠ '\\') (hbreak : c ≠ '\n')
    (hopen : c ≠ '[') (hclose : c ≠ ']') (hslash : ¬ (c = '/' ∧ ¬ inClass)) (u : List Char) :
    splitRegex inClass (c :: u) =
      (c :: (splitRegex inClass u).1, (splitRegex inClass u).2) := by
  rw [splitRegex, if_neg hbreak, if_neg hopen, if_neg hclose, if_neg hslash]
  · rintro rfl _
    exact hback rfl
  · rintro d u rfl _
    exact hback rfl

theorem endsOnLine_splitRegex (inClass : Bool) (e : List Char) :
    EndsOnLine (splitRegex inClass) e := by
  fun_induction splitRegex inClass e with
  | case1 inClass => exact .inr fun t => by simp [splitRegex]
  | case2 inClass => exact .inr fun t => by simp [splitRegex]
  | case3 inClass c s ih => exact ih.skip ['\\', c] fun u => by simp [splitRegex]
  | case4 inClass s hlast hpair => exact .inl ⟨[], _, rfl, fun t => by simp [splitRegex]⟩
  | case5 inClass s hlast hpair hbreak ih => exact ih.skip ['['] fun u => by simp [splitRegex]
  | case6 inClass s hlast hpair hbreak hclass ih =>
      exact ih.skip [']'] fun u => by simp [splitRegex]
  | case7 inClass c s hlast hpair hbreak hopen hclose hslash =>
      obtain ⟨rfl, hclass⟩ := hslash
      refine .inl ⟨'/' :: s.takeWhile Char.isAlpha, s.dropWhile Char.isAlpha, ?_, fun t => ?_⟩
      · rw [List.cons_append, List.takeWhile_append_dropWhile]
      · have htake := takeWhile_append_stop (p := Char.isAlpha) s (d := ';') rfl ('\n' :: t)
        have hdrop := dropWhile_append_stop (p := Char.isAlpha) s (d := ';') rfl ('\n' :: t)
        simp [splitRegex, hclass, htake, hdrop]
  | case8 inClass c s hlast hpair hbreak hopen hclose hslash ih =>
      exact ih.skip [c]
        (splitRegex_char (ne_backslash hlast hpair) hbreak hopen hclose hslash)

theorem endsOnLine_splitComment (e : List Char) : EndsOnLine splitComment e := by
  induction e with
  | nil => exact .inr fun t => by simp [splitComment]
  | cons c e ih =>
      by_cases hc : c = '\n'
      · exact .inl ⟨[], c :: e, rfl, fun t => by simp [splitComment, hc]⟩
      · exact ih.skip [c] fun u => by simp [splitComment, hc]

/-! ### Lines -/

/-- The two ways in which scanning a line can end. -/
inductive LineEnds (prev before : Option Char) (e : List Char) : Prop where
  /-- What follows the line break is scanned afresh. -/
  | closed (ls : List Lexeme) (p : Option Char) (hlast : ls.getLast? = some (copied ['\n']))
      (h : ∀ t, lexemes prev before (e ++ lineEnd t) = ls ++ lexemes p (some '\n') t)
  /-- What follows belongs to a literal, as long as nothing in it closes one. -/
  | inside (ls : List Lexeme) (literal : List Char) (hlit : literal ≠ ['\n'])
      (h : ∀ t, IsQuoteless t →
        lexemes prev before (e ++ lineEnd t) = ls ++ [copied (literal ++ t)])

namespace LineEnds

variable {prev before p b : Option Char} {e r : List Char} {l : Lexeme}

theorem cons (h : ∀ t, lexemes prev before (e ++ lineEnd t) = l :: lexemes p b (r ++ lineEnd t))
    (hr : LineEnds p b r) : LineEnds prev before e := by
  cases hr with
  | closed ls q hlast hends =>
      refine .closed (l :: ls) q ?_ fun t => ?_
      · rw [List.getLast?_cons, hlast]
        rfl
      · rw [h, hends, List.cons_append]
  | inside ls literal hlit hends =>
      refine .inside (l :: ls) literal hlit fun t ht => ?_
      rw [h, hends t ht, List.cons_append]

/-- A comment or a regular expression that lasts as long as the line. -/
theorem of_break (h : ∀ t, lexemes prev before (e ++ lineEnd t) = l :: lexemes p b ('\n' :: t)) :
    LineEnds prev before e := by
  refine .closed [l, copied ['\n']] p rfl fun t => ?_
  rw [h, lexemes_char rfl (by decide) rfl]
  rfl

/-! What stands first on the line settles how it is scanned, given that the rest
of the line ends in one of the two ways. -/

section

variable {c : Char} (hrest : ∀ r, r <:+ e → ∀ prev before, LineEnds prev before r)

include hrest

theorem of_literal (hquote : isQuote c) : LineEnds prev before (c :: e) := by
  rcases closesOnLine hquote e with ⟨literal, rest, hs, hsplit⟩ | hopen
  · refine (hrest rest ⟨literal, hs.symm⟩ (some c) (c :: literal).getLast?).cons
      (l := copied (c :: literal)) fun t => ?_
    rw [List.cons_append, lexemes, if_pos hquote]
    simp only [hsplit]
  · refine .inside [] (c :: (e ++ [';', '\n'])) (by simp) fun t ht => ?_
    rw [List.cons_append, lexemes, if_pos hquote]
    simp only [hopen t ht]
    simp [lexemes]

/-- A comment or a regular expression that stands first. -/
theorem of_endsOnLine {split : List Char → List Char × List Char} (hends : EndsOnLine split e)
    (h : ∀ t, lexemes prev before (c :: e ++ lineEnd t) =
      copied (c :: (split (e ++ lineEnd t)).1) ::
        lexemes p (c :: (split (e ++ lineEnd t)).1).getLast? (split (e ++ lineEnd t)).2) :
    LineEnds prev before (c :: e) := by
  rcases hends with ⟨taken, rest, hs, hsplit⟩ | hline
  · refine (hrest rest ⟨taken, hs.symm⟩ p (c :: taken).getLast?).cons
      (l := copied (c :: taken)) fun t => ?_
    rw [h, hsplit]
  · refine .of_break (l := copied (c :: (e ++ [';']))) (p := p)
      (b := (c :: (e ++ [';'])).getLast?) fun t => ?_
    rw [h, hline]

theorem of_comment (hquote : ¬ isQuote c) (hslash : c = '/' ∧ e.head? = some '/') :
    LineEnds prev before (c :: e) := by
  have hcomment : ∀ t, c = '/' ∧ (e ++ lineEnd t).head? = some '/' := by
    intro t
    simp [hslash.1, List.head?_append, hslash.2]
  refine of_endsOnLine hrest (p := prev) (endsOnLine_splitComment e) fun t => ?_
  rw [List.cons_append, lexemes, if_neg hquote, if_pos (hcomment t)]

variable (hquote : ¬ isQuote c) (hcomment : ∀ t, ¬ (c = '/' ∧ (e ++ lineEnd t).head? = some '/'))

include hquote hcomment

theorem of_regex (hregex : c = '/' ∧ opensRegex prev) : LineEnds prev before (c :: e) := by
  refine of_endsOnLine hrest (p := some '/') (endsOnLine_splitRegex false e) fun t => ?_
  rw [List.cons_append, lexemes, if_neg hquote, if_neg (hcomment t), if_pos hregex]

theorem of_word (hregex : ¬ (c = '/' ∧ opensRegex prev))
    (hword : isIdentChar c ∧ endsWord before) : LineEnds prev before (c :: e) := by
  let name := c :: e.takeWhile isIdentChar
  refine (hrest _ (List.dropWhile_suffix isIdentChar) name.getLast? name.getLast?).cons
    (l := word name) fun t => ?_
  rw [List.cons_append, lexemes, if_neg hquote, if_neg (hcomment t), if_neg hregex, if_pos hword]
  -- The word ends before the semicolon, wherever on the line it stands.
  simp only [takeWhile_append_stop (p := isIdentChar) e (d := ';') rfl ('\n' :: t),
    dropWhile_append_stop (p := isIdentChar) e (d := ';') rfl ('\n' :: t), name]

theorem of_char (hregex : ¬ (c = '/' ∧ opensRegex prev))
    (hword : ¬ (isIdentChar c ∧ endsWord before)) : LineEnds prev before (c :: e) := by
  refine (hrest e List.suffix_rfl (if isBlank c then prev else some c) (some c)).cons
    (l := copied [c]) fun t => ?_
  rw [List.cons_append, lexemes, if_neg hquote, if_neg (hcomment t), if_neg hregex, if_neg hword]

end

end LineEnds

theorem lineEnds (prev before : Option Char) (e : List Char) : LineEnds prev before e := by
  -- Strong induction: a lexeme may take any number of characters off the line.
  induction hn : e.length using Nat.strong_induction_on generalizing e prev before with
  | _ n ih =>
    cases e with
    | nil =>
        refine .of_break (l := copied [';']) (p := some ';') (b := some ';') fun t => ?_
        rw [List.nil_append, lexemes_char rfl (by decide) rfl]
        rfl
    | cons c e =>
        have hrest : ∀ r, r <:+ e → ∀ prev before, LineEnds prev before r := by
          intro r hr prev before
          apply ih r.length _ prev before r rfl
          rw [← hn, List.length_cons]
          exact Nat.lt_succ_of_le hr.length_le
        by_cases hquote : isQuote c
        · exact .of_literal hrest hquote
        by_cases hslash : c = '/' ∧ e.head? = some '/'
        · exact .of_comment hrest hquote hslash
        -- The semicolon after the line is no second slash.
        have hcomment : ∀ t, ¬ (c = '/' ∧ (e ++ lineEnd t).head? = some '/') := by
          intro t
          cases e with
          | nil => simp
          | cons d e => simpa using hslash
        by_cases hregex : c = '/' ∧ opensRegex prev
        · exact .of_regex hrest hquote hcomment hregex
        by_cases hword : isIdentChar c ∧ endsWord before
        · exact .of_word hrest hquote hcomment hregex hword
        · exact .of_char hrest hquote hcomment hregex hword

/-- Whether scanning sees the line break at the end of a line. -/
def IsClosedLine (prev before : Option Char) (e : List Char) : Prop :=
  (lexemes prev before (e ++ lineEnd [])).getLast? = some (copied ['\n'])

instance (prev before : Option Char) (e : List Char) : Decidable (IsClosedLine prev before e) := by
  unfold IsClosedLine
  infer_instance

theorem IsClosedLine.lexemes_append {prev before : Option Char} {e : List Char}
    (h : IsClosedLine prev before e) : ∃ p, ∀ t, lexemes prev before (e ++ lineEnd t) =
      lexemes prev before (e ++ lineEnd []) ++ lexemes p (some '\n') t := by
  cases lineEnds prev before e with
  | closed ls p hlast hends =>
      have hline : lexemes prev before (e ++ lineEnd []) = ls := by
        rw [hends, lexemes, List.append_nil]
      exact ⟨p, fun t => by rw [hends, hline]⟩
  | inside ls literal hlit hends =>
      exfalso
      rw [IsClosedLine, hends [] (by simp [IsQuoteless]), List.getLast?_concat] at h
      simp at h
      exact hlit h

theorem lexemes_append_of_not_isClosedLine {prev before : Option Char} {e : List Char}
    (h : ¬ IsClosedLine prev before e) : ∃ ls literal, ∀ t, IsQuoteless t →
      lexemes prev before (e ++ lineEnd t) = ls ++ [copied (literal ++ t)] := by
  cases lineEnds prev before e with
  | closed ls p hlast hends =>
      exfalso
      apply h
      rw [IsClosedLine, hends, lexemes, List.append_nil, hlast]
  | inside ls literal hlit hends => exact ⟨ls, literal, hends⟩

end TraceExport.Script
