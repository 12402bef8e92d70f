import TraceExport.Proofs.Lexeme
import TraceExport.Script.Expr

/-!
Literals of a script, as renaming finds their ends. A stretch that neither
closes a literal nor leaves an escape open is passed over whatever follows it;
everything that is written between quotation marks is made of such stretches.
-/

namespace TraceExport.Script

open Spec (Placeholder.Piece Placeholder.IsVariable)

/-- The scanner of a literal goes over a stretch and is then where it was. -/
def Passes (mark : Char) (s : List Char) : Prop :=
  ∀ t, splitQuoted mark (s ++ t) = (s ++ (splitQuoted mark t).1, (splitQuoted mark t).2)

namespace Passes

variable {mark : Char}

theorem nil : Passes mark [] := fun t => by simp

theorem append {s t : List Char} (hs : Passes mark s) (ht : Passes mark t) :
    Passes mark (s ++ t) := by
  intro u
  rw [List.append_assoc, hs, ht, List.append_assoc]

theorem char {c : Char} (hmark : c ≠ mark) (hslash : c ≠ '\\') : Passes mark [c] := by
  intro t
  rw [List.singleton_append, splitQuoted]
  · rw [if_neg hmark]
    rfl
  · rintro rfl _
    exact hslash rfl
  · rintro d s rfl _
    exact hslash rfl

theorem escaped (mark c : Char) : Passes mark ['\\', c] := by
  intro t
  rw [List.cons_append, List.singleton_append, splitQuoted]
  rfl

theorem flatMap {α : Type} {f : α → List Char} {l : List α} (h : ∀ a ∈ l, Passes mark (f a)) :
    Passes mark (l.flatMap f) := by
  induction l with
  | nil => exact nil
  | cons a l ih =>
      rw [List.flatMap_cons]
      exact (h a List.mem_cons_self).append (ih fun b hb => h b (List.mem_cons_of_mem a hb))

theorem of_chars {s : List Char} (h : ∀ c ∈ s, c ≠ mark ∧ c ≠ '\\') : Passes mark s := by
  induction s with
  | nil => exact nil
  | cons c s ih =>
      obtain ⟨hmark, hslash⟩ := h c List.mem_cons_self
      exact (char hmark hslash).append (ih fun d hd => h d (List.mem_cons_of_mem c hd))

theorem splitQuoted_close {s : List Char} (hs : Passes mark s) (hmark : mark ≠ '\\')
    (t : List Char) : splitQuoted mark (s ++ mark :: t) = (s ++ [mark], t) := by
  have hclose : splitQuoted mark (mark :: t) = ([mark], t) := by
    rw [splitQuoted]
    · exact if_pos rfl
    · rintro rfl _
      exact hmark rfl
    · rintro d s rfl _
      exact hmark rfl
  rw [hs, hclose]

end Passes

theorem passes_escapeQuotedChar (c : Char) : Passes '\'' (escapeQuotedChar c) := by
  unfold escapeQuotedChar
  split
  · exact .escaped _ _
  · exact .escaped _ _
  · exact .escaped _ _
  · exact .escaped _ _
  · exact .escaped _ _
  · rename_i hslash hmark _ _ _
    exact .char hmark hslash

theorem passes_escapeQuoted (s : String) : Passes '\'' (escapeQuoted s).toList := by
  rw [escapeQuoted, String.toList_ofList]
  exact .flatMap fun c _ => passes_escapeQuotedChar c

theorem passes_escapeTemplate (s : List Char) : Passes backquote (escapeTemplate s) := by
  fun_induction escapeTemplate s with
  | case1 => exact .nil
  | case2 s ih =>
      exact (Passes.escaped _ '$').append
        ((Passes.char (c := '\x7b') (by decide) (by decide)).append ih)
  | case3 c s _ hspecial ih => exact (Passes.escaped _ c).append ih
  | case4 c s _ hspecial ih =>
      rw [Bool.or_eq_true, not_or] at hspecial
      exact (Passes.char (by simpa using hspecial.2) (by simpa using hspecial.1)).append ih

/-- A text opens inside backquotes as it does outside, but for a backslash. -/
theorem head?_of_head?_escapeTemplate {s : List Char} {c : Char} (hc : c ≠ '\\')
    (h : (escapeTemplate s).head? = some c) : s.head? = some c := by
  unfold escapeTemplate at h
  split at h
  · simp at h
  · exact absurd (by simpa using h.symm) hc
  · split at h
    · exact absurd (by simpa using h.symm) hc
    · simpa using h

theorem passes_of_isIdentChar {s : List Char} (h : ∀ c ∈ s, Text.isIdentChar c) :
    Passes backquote s :=
  .of_chars fun c hc =>
    ⟨Text.ne_of_isIdentChar (h c hc) (by decide), Text.ne_of_isIdentChar (h c hc) (by decide)⟩

theorem passes_pieceText {piece : Placeholder.Piece}
    (h : ∀ name, piece.name? = some name → Spec.Placeholder.isName name) :
    Passes backquote (Expr.pieceText piece) := by
  cases piece with
  | plain text => exact passes_escapeTemplate text
  | placeholder name =>
      have hname := (isBindable_variableName (h _ rfl)).isIdentChar_of_mem
      have hopen : Passes backquote ['$', '\x7b'] := .of_chars (by simp [backquote])
      have hclose : Passes backquote ['\x7d'] := .of_chars (by simp [backquote])
      exact (hopen.append (passes_of_isIdentChar hname)).append hclose

/-! ### Literals as lexemes -/

open Lexeme

theorem lexemes_literal {mark : Char} {s t : List Char} {prev before : Option Char}
    (hquote : isQuote mark) (hs : Passes mark s) :
    lexemes prev before (mark :: (s ++ mark :: t)) =
      copied (mark :: (s ++ [mark])) :: lexemes (some mark) (some mark) t := by
  have hmark : mark ≠ '\\' := by
    rintro rfl
    simp [isQuote] at hquote
  rw [lexemes, if_pos hquote]
  simp only [hs.splitQuoted_close hmark]
  rw [← List.cons_append, List.getLast?_concat]

theorem lexemes_quoted (value : String) (t : List Char) (prev before : Option Char) :
    lexemes prev before ((quoted value).toList ++ t) =
      copied (quoted value).toList :: lexemes (some '\'') (some '\'') t := by
  have hshape : (quoted value).toList = '\'' :: ((escapeQuoted value).toList ++ ['\'']) := by
    simp [quoted]
  have hsplit : '\'' :: ((escapeQuoted value).toList ++ ['\'']) ++ t =
      '\'' :: ((escapeQuoted value).toList ++ '\'' :: t) := by simp
  rw [hshape, hsplit, lexemes_literal rfl (passes_escapeQuoted value)]

theorem lexemes_template {ps : List Placeholder.Piece}
    (h : ∀ v ∈ ps.filterMap Placeholder.Piece.name?, Spec.Placeholder.isName v) (t : List Char)
    (prev before : Option Char) :
    lexemes prev before ((Expr.template ps).text.toList ++ t) =
      copied (Expr.template ps).text.toList :: lexemes (some backquote) (some backquote) t := by
  have hpass : Passes backquote (ps.flatMap Expr.pieceText) :=
    .flatMap fun piece hpiece => passes_pieceText fun name hname =>
      h name (List.mem_filterMap.2 ⟨piece, hpiece, hname⟩)
  have hshape : (Expr.template ps).text.toList =
      backquote :: (ps.flatMap Expr.pieceText ++ [backquote]) := by
    simp [Expr.text]
  have hsplit : backquote :: (ps.flatMap Expr.pieceText ++ [backquote]) ++ t =
      backquote :: (ps.flatMap Expr.pieceText ++ backquote :: t) := by simp
  rw [hshape, hsplit, lexemes_literal rfl hpass]

end TraceExport.Script
