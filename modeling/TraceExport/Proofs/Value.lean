import TraceExport.Proofs.Generated
import TraceExport.Proofs.Literal
import TraceExport.Proofs.Needs
import TraceExport.Proofs.Resolution
import TraceExport.Proofs.SingleLine

/-!
What the expressions of a script evaluate to. The evaluator reads the text of an expression as the
engine of the script does and knows nothing of how the text came about. The expression for a text
with variables gives this text with the values of the variables in it (`StandsFor`).
-/

namespace TraceExport.Text

theorem replaceAll_char (d : Char) (new s : List Char) :
    replaceAll [d] new s = s.flatMap fun c => if c = d then new else [c] := by
  induction s with
  | nil => simp [replaceAll]
  | cons c s ih =>
      by_cases hc : c = d
      · have hread : dropPrefix? [d] (c :: s) = some s := by simp [dropPrefix?, hc]
        rw [replaceAll_of_dropPrefix? (by simp) hread, ih]
        simp [hc]
      · rw [replaceAll_cons (by simp) (by simp [dropPrefix?, Ne.symm hc]), ih]
        simp [hc]

end TraceExport.Text

namespace TraceExport.Script

open Text
open Spec (Placeholder.Piece)

/-! ### Reading literals -/

/-- What a character stands for behind a backslash. A line that is continued leaves nothing.
Escapes by number are left out. -/
def escaped? (c : Char) : Option (List Char) :=
  if isLineTerminator c then some []
  else if c.isDigit || c == 'x' || c == 'u' then none
  else match c with
    | 'b' => some ['\x08']
    | 't' => some ['\t']
    | 'n' => some ['\n']
    | 'v' => some ['\x0b']
    | 'f' => some ['\x0c']
    | 'r' => some ['\r']
    | c => some [c]

/-- Puts a text in front of the value that is read. -/
def inFront (s : List Char) (read : Option (List Char × List Char)) :
    Option (List Char × List Char) :=
  read.map (Prod.map (s ++ ·) id)

@[simp] theorem inFront_nil (read : Option (List Char × List Char)) : inFront [] read = read := by
  cases read <;> rfl

@[simp] theorem inFront_inFront (s t : List Char) (read : Option (List Char × List Char)) :
    inFront s (inFront t read) = inFront (s ++ t) read := by
  cases read <;> simp [inFront, Prod.map]

@[simp] theorem inFront_some (s value rest : List Char) :
    inFront s (some (value, rest)) = some (s ++ value, rest) := rfl

/-- Reads a text up to the closing quotation mark: its value, and what follows. A line break
inside is an error. -/
def readQuoted? : List Char → Option (List Char × List Char)
  | [] => none
  | '\'' :: s => some ([], s)
  | '\\' :: '\r' :: '\n' :: s => readQuoted? s
  | '\\' :: c :: s => do
    let cooked ← escaped? c
    inFront cooked (readQuoted? s)
  | c :: s => if c == '\n' || c == '\r' then none else inFront [c] (readQuoted? s)

/-- Whether a word refers to a binding. -/
def isReference (word : List Char) : Bool :=
  (word.head?.map isIdentStart).getD false && word.all isIdentChar &&
    !isReserved (String.ofList word)

/-- Reads a template up to the closing backquote: its value, and what follows. `hole` holds what
has been read of an expression in braces, which has to be a reference. Line breaks in the text
count as line feeds. -/
def readTemplate? (bindings : String → String) :
    (hole : Option (List Char)) → List Char → Option (List Char × List Char)
  | _, [] => none
  | some word, '\x7d' :: s =>
    if isReference word then
      inFront (bindings (String.ofList word)).toList (readTemplate? bindings none s)
    else none
  | some word, c :: s => readTemplate? bindings (some (word ++ [c])) s
  | none, '\x60' :: s => some ([], s)
  | none, '$' :: '\x7b' :: s => readTemplate? bindings (some []) s
  | none, '\\' :: '\r' :: '\n' :: s => readTemplate? bindings none s
  | none, '\\' :: c :: s => do
    let cooked ← escaped? c
    inFront cooked (readTemplate? bindings none s)
  | none, '\r' :: '\n' :: s => inFront ['\n'] (readTemplate? bindings none s)
  | none, '\r' :: s => inFront ['\n'] (readTemplate? bindings none s)
  | none, c :: s => inFront [c] (readTemplate? bindings none s)

/-! ### Evaluation -/

/-- A value that nothing follows. -/
def whole? : List Char × List Char → Option String
  | (value, []) => some (String.ofList value)
  | _ => none

/-- The value of `new URL('…', base).toString()`. -/
def evaluateAddress? (bindings : String → String) (code : List Char) : Option String := do
  let s ← dropPrefix? "new URL('".toList code
  let (path, s) ← readQuoted? s
  let s ← dropPrefix? ", ".toList s
  let base ← dropSuffix? ").toString()".toList s
  if isReference base then
    Url.resolvedText? (String.ofList path) (bindings (String.ofList base))
  else none

/-- The value of an expression where the bindings have these values. -/
def evaluate? (bindings : String → String) (code : String) : Option String :=
  match code.toList with
  | '\'' :: s => (readQuoted? s).bind whole?
  | '\x60' :: s => (readTemplate? bindings none s).bind whole?
  | word =>
    if isReference word then some (bindings (String.ofList word))
    else evaluateAddress? bindings word

theorem isReference_of_isBindable {name : String} (h : IsBindable name) :
    isReference name.toList := by
  obtain ⟨c, s, hname, hc⟩ := h.isIdentStart_head
  have hletters := h.isIdentChar_of_mem
  simp only [isReference, Bool.and_eq_true, List.all_eq_true, String.ofList_toList, h.free]
  exact ⟨⟨by simp [hname, hc], hletters⟩, rfl⟩

variable {bindings : String → String}

theorem evaluate?_word {name : String} (h : IsBindable name) :
    evaluate? bindings name = some (bindings name) := by
  obtain ⟨c, s, hname, hc⟩ := h.isIdentStart_head
  have hc := isIdentChar_of_isIdentStart hc
  have hword := isReference_of_isBindable h
  unfold evaluate?
  split
  · rename_i s hs
    obtain rfl : c = '\'' := by simpa [hname] using congrArg List.head? hs
    exact absurd hc (by decide)
  · rename_i s hs
    obtain rfl : c = '\x60' := by simpa [hname] using congrArg List.head? hs
    exact absurd hc (by decide)
  · rw [if_pos hword, String.ofList_toList]

/-! ### Quoted texts -/

theorem readQuoted?_char {c : Char} (hslash : c ≠ '\\') (hmark : c ≠ '\'') (hfeed : c ≠ '\n')
    (hreturn : c ≠ '\r') (t : List Char) :
    readQuoted? (c :: t) = inFront [c] (readQuoted? t) := by
  rw [readQuoted?]
  · rw [if_neg (by simp [hfeed, hreturn])]
  · exact hmark
  · rintro s rfl -
    exact hslash rfl
  · rintro d s rfl -
    exact hslash rfl

theorem readQuoted?_escapeQuotedChar (c : Char) (t : List Char) :
    readQuoted? (escapeQuotedChar c ++ t) = inFront [c] (readQuoted? t) := by
  unfold escapeQuotedChar
  split
  · rfl
  · rfl
  · rfl
  · rfl
  · rfl
  · rename_i hslash hmark hfeed hreturn _
    exact readQuoted?_char hslash hmark hfeed hreturn t

/-- A text in quotation marks is read as it was written, whatever follows it. -/
theorem readQuoted?_escapeQuoted (value : String) (t : List Char) :
    readQuoted? ((escapeQuoted value).toList ++ '\'' :: t) = some (value.toList, t) := by
  rw [escapeQuoted, String.toList_ofList]
  induction value.toList with
  | nil => rfl
  | cons c s ih =>
      rw [List.flatMap_cons, List.append_assoc, readQuoted?_escapeQuotedChar, ih]
      rfl

theorem evaluate?_quoted (value : String) : evaluate? bindings (quoted value) = some value := by
  have hshape : (quoted value).toList = '\'' :: ((escapeQuoted value).toList ++ ['\'']) := by
    simp [quoted]
  rw [evaluate?, hshape]
  simp only [readQuoted?_escapeQuoted]
  simp [whole?]

theorem evaluate?_onAddress {var : String} (hvar : Spec.Placeholder.isName var) (path : String) :
    evaluate? bindings (Expr.onAddress path var).text =
      Url.resolvedText? path (bindings (variableName var)) := by
  have hbase := isReference_of_isBindable (isBindable_variableName hvar)
  have hshape : (Expr.onAddress path var).text.toList = "new URL('".toList ++
      ((escapeQuoted path).toList ++ '\'' :: (", ".toList ++
        ((variableName var).toList ++ ").toString()".toList))) := by
    simp [Expr.text, quoted]
  have hsuffix : dropSuffix? ").toString()".toList
      ((variableName var).toList ++ ").toString()".toList) = some (variableName var).toList :=
    dropSuffix?_eq_some.2 rfl
  have hword : isReference (Expr.onAddress path var).text.toList = false := by
    simp [hshape, isReference, isIdentChar]
  have haddress : evaluateAddress? bindings (Expr.onAddress path var).text.toList =
      Url.resolvedText? path (bindings (variableName var)) := by
    rw [hshape, evaluateAddress?, dropPrefix?_append]
    simp only [Option.bind_eq_bind, Option.bind_some, readQuoted?_escapeQuoted,
      dropPrefix?_append, hsuffix, hbase, if_true, String.ofList_toList]
  have hopens : ∃ s, (Expr.onAddress path var).text.toList = 'n' :: s := ⟨_, by rw [hshape]; rfl⟩
  obtain ⟨s, hs⟩ := hopens
  rw [hs] at hword haddress
  rw [evaluate?, hs]
  change (if isReference ('n' :: s) then _ else evaluateAddress? bindings ('n' :: s)) = _
  rw [hword, haddress]
  rfl

/-! ### Templates -/

/-- The first two replacements together: the first writes nothing that the second looks for. -/
theorem replaceAll_marks (s : List Char) :
    replaceAll [backquote] ['\\', backquote] (replaceAll ['\\'] ['\\', '\\'] s) =
      s.flatMap fun c => if c = '\\' ∨ c = backquote then ['\\', c] else [c] := by
  rw [replaceAll_char, replaceAll_char, List.flatMap_assoc]
  refine List.flatMap_congr fun c _ => ?_
  have hdistinct : backquote ≠ '\\' := by decide
  by_cases hslash : c = '\\'
  · simp [hslash, hdistinct.symm]
  · by_cases hmark : c = backquote
    · simp [hmark, hdistinct]
    · simp [hslash, hmark]

theorem replaceAll_opening_cons {c : Char} (hc : c ≠ '$') (s : List Char) :
    replaceAll ['$', '\x7b'] ['\\', '$', '\x7b'] (c :: s) =
      c :: replaceAll ['$', '\x7b'] ['\\', '$', '\x7b'] s :=
  replaceAll_cons (by simp) (by simp [dropPrefix?, hc.symm])

/-- Escaping goes over the text once; it might as well replace one character after the other. -/
theorem escapeTemplate_eq_replaceAll (s : List Char) :
    escapeTemplate s = replaceAll ['$', '\x7b'] ['\\', '$', '\x7b']
      (replaceAll [backquote] ['\\', backquote] (replaceAll ['\\'] ['\\', '\\'] s)) := by
  rw [replaceAll_marks]
  fun_induction escapeTemplate s with
  | case1 => simp [replaceAll]
  | case2 s ih =>
      rw [ih, List.flatMap_cons, List.flatMap_cons, if_neg (by decide), if_neg (by decide)]
      symm
      exact replaceAll_of_dropPrefix? (by simp) (dropPrefix?_append ['$', '\x7b'] _)
  | case3 c s _ hspecial ih =>
      have hmark : c = '\\' ∨ c = backquote := by simpa using hspecial
      have hdollar : c ≠ '$' := by rcases hmark with rfl | rfl <;> decide
      rw [List.flatMap_cons, if_pos hmark, List.cons_append, List.singleton_append,
        replaceAll_opening_cons (by decide), replaceAll_opening_cons hdollar, ih]
  | case4 c s hopen hspecial ih =>
      have hmark : ¬ (c = '\\' ∨ c = backquote) := by simpa using hspecial
      rw [List.flatMap_cons, if_neg hmark, List.singleton_append, ih]
      by_cases hdollar : c = '$'
      · subst hdollar
        refine (replaceAll_cons (by simp) ?_).symm
        cases s with
        | nil => rfl
        | cons d s =>
            have hbrace : d ≠ '\x7b' := by
              rintro rfl
              exact hopen s rfl rfl
            by_cases hd : d = '\\' ∨ d = backquote
            · simp [dropPrefix?, hd]
            · simp [dropPrefix?, hd, hbrace.symm]
      · exact (replaceAll_opening_cons hdollar _).symm

/-- A text with line feeds for its line breaks. -/
def unifyBreaks : List Char → List Char
  | [] => []
  | '\r' :: '\n' :: s => '\n' :: unifyBreaks s
  | '\r' :: s => '\n' :: unifyBreaks s
  | c :: s => c :: unifyBreaks s

theorem unifyBreaks_cons {c : Char} (hc : c ≠ '\r') (s : List Char) :
    unifyBreaks (c :: s) = c :: unifyBreaks s := by
  rw [unifyBreaks]
  · rintro s rfl -
    exact hc rfl
  · exact hc

theorem unifyBreaks_return {s : List Char} (hs : s.head? ≠ some '\n') :
    unifyBreaks ('\r' :: s) = '\n' :: unifyBreaks s := by
  rw [unifyBreaks]
  rintro s rfl
  exact hs rfl

theorem unifyBreaks_eq_self {s : List Char} (h : '\r' ∉ s) : unifyBreaks s = s := by
  fun_induction unifyBreaks s with
  | case1 => rfl
  | case2 s ih => simp at h
  | case3 s _ ih => simp at h
  | case4 c s _ _ ih => rw [ih (List.not_mem_of_not_mem_cons h)]

theorem readTemplate?_escaped {c : Char} {cooked : List Char} (hreturn : c ≠ '\r')
    (hc : escaped? c = some cooked) (t : List Char) :
    readTemplate? bindings none ('\\' :: c :: t) =
      inFront cooked (readTemplate? bindings none t) := by
  rw [readTemplate?, hc]
  · rfl
  · rintro s rfl -
    exact hreturn rfl

theorem readTemplate?_char {c : Char} {t : List Char} (hmark : c ≠ '\x60') (hslash : c ≠ '\\')
    (hreturn : c ≠ '\r') (hopen : c = '$' → t.head? ≠ some '\x7b') :
    readTemplate? bindings none (c :: t) =
      inFront [c] (readTemplate? bindings none t) := by
  rw [readTemplate?]
  · exact hmark
  · rintro s rfl rfl
    exact hopen rfl rfl
  · rintro s rfl -
    exact hslash rfl
  · rintro d s rfl -
    exact hslash rfl
  · rintro s rfl -
    exact hreturn rfl
  · exact hreturn

/-- A carriage return counts as a line feed of its own. -/
theorem readTemplate?_return {t : List Char} (ht : t.head? ≠ some '\n') :
    readTemplate? bindings none ('\r' :: t) =
      inFront ['\n'] (readTemplate? bindings none t) := by
  rw [readTemplate?]
  rintro s rfl
  exact ht rfl

theorem head?_escapeTemplate_append_ne {s t : List Char} {c : Char} (hc : c ≠ '\\')
    (hs : s.head? ≠ some c) (ht : t.head? ≠ some c) :
    (escapeTemplate s ++ t).head? ≠ some c := by
  intro h
  cases hescaped : escapeTemplate s with
  | nil => exact ht (by simpa [hescaped] using h)
  | cons d rest => exact hs (head?_of_head?_escapeTemplate hc (by simpa [hescaped] using h))

/-- Plain text of a template is read as it was, if what follows belongs neither to its last dollar
sign nor to its last line break. -/
theorem readTemplate?_escapeTemplate (s : List Char) {t : List Char}
    (hbrace : t.head? ≠ some '\x7b') (hfeed : t.head? ≠ some '\n') :
    readTemplate? bindings none (escapeTemplate s ++ t) =
      inFront (unifyBreaks s) (readTemplate? bindings none t) := by
  fun_induction escapeTemplate s with
  | case1 => simp [unifyBreaks]
  | case2 s ih =>
      have hopened : readTemplate? bindings none ('\x7b' :: (escapeTemplate s ++ t)) = _ :=
        readTemplate?_char (by decide) (by decide) (by decide) fun h => absurd h (by decide)
      rw [List.cons_append, List.cons_append, List.cons_append,
        readTemplate?_escaped (by decide) rfl, hopened, ih, inFront_inFront, inFront_inFront]
      rfl
  | case3 c s hopen hspecial ih =>
      have hmark : c = '\\' ∨ c = backquote := by simpa using hspecial
      have hcooked : escaped? c = some [c] := by rcases hmark with rfl | rfl <;> rfl
      have hreturn : c ≠ '\r' := by rcases hmark with rfl | rfl <;> decide
      rw [List.cons_append, List.cons_append, readTemplate?_escaped hreturn hcooked, ih,
        inFront_inFront, unifyBreaks_cons hreturn]
      rfl
  | case4 c s hopen hspecial ih =>
      obtain ⟨hslash, hmark⟩ : c ≠ '\\' ∧ c ≠ '\x60' := by simpa [backquote] using hspecial
      rw [List.cons_append]
      by_cases hreturn : c = '\r'
      · subst hreturn
        by_cases hnext : s.head? = some '\n'
        · -- The two characters are one line break, which the rest alone is as well.
          obtain ⟨rest, rfl⟩ := List.head?_eq_some_iff.1 hnext
          rw [unifyBreaks, ← unifyBreaks_cons (by decide), ← ih]
          rfl
        · have hfollows := head?_escapeTemplate_append_ne (by decide) hnext hfeed
          rw [readTemplate?_return hfollows, ih, inFront_inFront, unifyBreaks_return hnext]
          rfl
      · have hdollar : c = '$' → (escapeTemplate s ++ t).head? ≠ some '\x7b' := by
          rintro rfl
          refine head?_escapeTemplate_append_ne (by decide) (fun h => ?_) hbrace
          obtain ⟨rest, rfl⟩ := List.head?_eq_some_iff.1 h
          exact hopen rest rfl rfl
        rw [readTemplate?_char hmark hslash hreturn hdollar, ih, inFront_inFront,
          unifyBreaks_cons hreturn]
        rfl

theorem readTemplate?_letter {c : Char} (hc : c ≠ '\x7d') (word t : List Char) :
    readTemplate? bindings (some word) (c :: t) =
      readTemplate? bindings (some (word ++ [c])) t := by
  rw [readTemplate?]
  exact hc

theorem readTemplate?_hole {w : List Char} (hw : ∀ c ∈ w, isIdentChar c) (word t : List Char) :
    readTemplate? bindings (some word) (w ++ '\x7d' :: t) =
      readTemplate? bindings (some (word ++ w)) ('\x7d' :: t) := by
  induction w generalizing word with
  | nil => simp
  | cons c w ih =>
      obtain ⟨hc, hw⟩ := List.forall_mem_cons.1 hw
      rw [List.cons_append, readTemplate?_letter (ne_of_isIdentChar hc rfl), ih hw,
        List.append_assoc, List.singleton_append]

theorem readTemplate?_placeholder {name : String} (h : IsBindable name) (t : List Char) :
    readTemplate? bindings none ('$' :: '\x7b' :: (name.toList ++ '\x7d' :: t)) =
      inFront (bindings name).toList (readTemplate? bindings none t) := by
  rw [readTemplate?, readTemplate?_hole h.isIdentChar_of_mem, readTemplate?, List.nil_append,
    if_pos (isReference_of_isBindable h), String.ofList_toList]

/-- What a piece of a text stands for. -/
def pieceValue (bindings : String → String) : Placeholder.Piece → List Char
  | .plain text => unifyBreaks text
  | .placeholder name => (bindings (variableName (String.ofList name))).toList

/-- The text of a template is read up to the backquote that was written last, whatever
follows it. -/
theorem readTemplate?_pieces {ps : List Placeholder.Piece} (hps : Spec.Placeholder.Alternates ps)
    (hnames : ∀ v ∈ ps.filterMap Placeholder.Piece.name?, Spec.Placeholder.isName v)
    (t : List Char) : readTemplate? bindings none (ps.flatMap Expr.pieceText ++ '\x60' :: t) =
      some (ps.flatMap (pieceValue bindings), t) := by
  induction ps with
  | nil => rfl
  | cons piece ps ih =>
      cases piece with
      | plain text =>
          have hhead : ∀ c, c ≠ '$' → c ≠ '\x60' →
              (ps.flatMap Expr.pieceText ++ '\x60' :: t).head? ≠ some c := by
            intro c hdollar hmark
            cases ps with
            | nil => simpa using hmark.symm
            | cons next ps => cases next with
              | plain _ => exact hps.elim
              | placeholder _ => simpa [Expr.pieceText] using hdollar.symm
          rw [List.flatMap_cons, List.append_assoc, Expr.pieceText,
            readTemplate?_escapeTemplate text (hhead _ (by decide) (by decide))
              (hhead _ (by decide) (by decide)), ih hps.tail hnames]
          rfl
      | placeholder name =>
          have hfirst :
              (Placeholder.Piece.placeholder name :: ps).filterMap Placeholder.Piece.name? =
                String.ofList name :: ps.filterMap Placeholder.Piece.name? := rfl
          rw [hfirst] at hnames
          obtain ⟨hname, hnames⟩ := List.forall_mem_cons.1 hnames
          have hshape :
              (Placeholder.Piece.placeholder name :: ps).flatMap Expr.pieceText ++ '\x60' :: t =
                '$' :: '\x7b' :: ((variableName (String.ofList name)).toList ++
                  '\x7d' :: (ps.flatMap Expr.pieceText ++ '\x60' :: t)) := by
            simp [Expr.pieceText]
          rw [hshape, readTemplate?_placeholder (isBindable_variableName hname), ih hps hnames]
          rfl

theorem evaluate?_template {ps : List Placeholder.Piece} (hps : Spec.Placeholder.Alternates ps)
    (hnames : ∀ v ∈ ps.filterMap Placeholder.Piece.name?, Spec.Placeholder.isName v) :
    evaluate? bindings (Expr.template ps).text =
      some (String.ofList (ps.flatMap (pieceValue bindings))) := by
  have hshape : (Expr.template ps).text.toList =
      '\x60' :: (ps.flatMap Expr.pieceText ++ ['\x60']) := by
    simp [Expr.text, backquote]
  rw [evaluate?, hshape]
  simp only [readTemplate?_pieces hps hnames]
  rfl

/-! ### Texts with variables -/

/-- A text with the values of its variables in place of their placeholders. -/
def rendered (bindings : String → String) (s : List Char) : List Char :=
  Spec.Placeholder.replace
    (fun name => (bindings (variableName (String.ofList name))).toList) s

theorem flatMap_pieceValue {s : List Char}
    (h : ∀ text, Placeholder.Piece.plain text ∈ Spec.Placeholder.pieces s → '\r' ∉ text) :
    (Spec.Placeholder.pieces s).flatMap (pieceValue bindings) = rendered bindings s := by
  refine List.flatMap_congr fun piece hpiece => ?_
  cases piece with
  | plain text => exact unifyBreaks_eq_self (h text hpiece)
  | placeholder name => rfl

/-- The literal of a template goes to its last character, for the engine of the script and for what
copies literals when names are changed. -/
theorem template_ends {ps : List Placeholder.Piece} (hps : Spec.Placeholder.Alternates ps)
    (hnames : ∀ v ∈ ps.filterMap Placeholder.Piece.name?, Spec.Placeholder.isName v) :
    ∃ body, (Expr.template ps).text.toList = backquote :: body ++ [backquote] ∧ ∀ rest,
      splitQuoted backquote (body ++ backquote :: rest) = (body ++ [backquote], rest) ∧
      ∀ bindings,
        (readTemplate? bindings none (body ++ backquote :: rest)).map Prod.snd = some rest := by
  refine ⟨ps.flatMap Expr.pieceText, by simp [Expr.text], fun rest => ⟨?_, fun bindings => ?_⟩⟩
  · have hpass : Passes backquote (ps.flatMap Expr.pieceText) :=
      .flatMap fun piece hpiece => passes_pieceText fun name hname =>
        hnames name (List.mem_filterMap.2 ⟨piece, hpiece, hname⟩)
    exact hpass.splitQuoted_close (by decide) rest
  · have hread : readTemplate? bindings none _ = _ := readTemplate?_pieces hps hnames rest
    rw [backquote, hread]
    rfl

/-- A text of which nothing but a placeholder is printed. -/
def IsSole (raw : String) : Prop :=
  ∃ name, Spec.Placeholder.inked raw.toList = [.placeholder name]

/-- What an expression for a text with variables has to be. -/
structure StandsFor (e : Expr) (raw : String) : Prop where
  /-- If nothing but a placeholder is printed, it is the value of the variable. -/
  sole : ∀ name, Spec.Placeholder.inked raw.toList = [.placeholder name] → ∀ bindings,
    evaluate? bindings e.text = some (bindings (variableName (String.ofList name)))
  /-- In any other text, placeholders give way to values and line breaks to line feeds. -/
  template : ¬ IsSole raw → ∀ bindings, evaluate? bindings e.text = some (String.ofList
    ((Spec.Placeholder.pieces raw.toList).flatMap (pieceValue bindings)))
  exact : ¬ IsSole raw → '\r' ∉ raw.toList → ∀ bindings,
    evaluate? bindings e.text = some (String.ofList (rendered bindings raw.toList))
  /-- The literal goes to its last character, whatever follows it. -/
  ends : ¬ IsSole raw → ∃ body, e.text.toList = backquote :: body ++ [backquote] ∧ ∀ rest,
    splitQuoted backquote (body ++ backquote :: rest) = (body ++ [backquote], rest) ∧
    ∀ bindings, (readTemplate? bindings none (body ++ backquote :: rest)).map Prod.snd = some rest
  vars : e.vars = Spec.Placeholder.vars raw
  sorted : e.needs.envVars.Pairwise (· < ·)
  envVars : ∀ var, var ∈ e.needs.envVars ↔
    ∃ v ∈ Spec.Placeholder.vars raw, var ∈ (Needs.ofVar v).envVars
  loginBaseUrl : e.needs.loginBaseUrl ↔
    ∃ v ∈ Spec.Placeholder.vars raw, (Needs.ofVar v).loginBaseUrl

theorem standsFor_binding {raw : String} {name : List Char}
    (h : Spec.Placeholder.sole? raw.toList = some name) :
    StandsFor (.binding (String.ofList name)) raw := by
  have hname : Spec.Placeholder.isName (String.ofList name) :=
    Spec.Placeholder.isName_iff.2 (by simpa using Spec.Placeholder.isVariable_of_sole? h)
  have hinked := Spec.Placeholder.sole?_eq_some.1 h
  have hvars := Spec.Placeholder.vars_of_sole? h
  exact {
    sole := fun other hother bindings => by
      obtain rfl : name = other := by simpa [hinked] using hother
      exact evaluate?_word (isBindable_variableName hname)
    template := fun hother => absurd ⟨name, hinked⟩ hother
    exact := fun hother => absurd ⟨name, hinked⟩ hother
    ends := fun hother => absurd ⟨name, hinked⟩ hother
    vars := hvars.symm
    sorted := Needs.pairwise_ofVars _
    envVars := fun var => hvars ▸ Needs.mem_envVars_ofVars_iff
    loginBaseUrl := hvars ▸ Needs.loginBaseUrl_ofVars_iff }

theorem standsFor_template {raw : String} (h : Spec.Placeholder.sole? raw.toList = none) :
    StandsFor (.template (Spec.Placeholder.pieces raw.toList)) raw := by
  have hnames : ∀ v ∈ (Spec.Placeholder.pieces raw.toList).filterMap Placeholder.Piece.name?,
      Spec.Placeholder.isName v := fun v hv => Spec.Placeholder.isName_of_mem_occurrences hv
  have halternates := Spec.Placeholder.alternates_pieces raw.toList
  exact {
    sole := fun name hname => by simp [Spec.Placeholder.sole?_eq_some.2 hname] at h
    template := fun _ bindings => evaluate?_template halternates hnames
    exact := fun _ hreturn bindings => by
      rw [evaluate?_template halternates hnames, flatMap_pieceValue fun _ htext hmem =>
        hreturn (Spec.Placeholder.mem_of_mem_plain htext hmem)]
    ends := fun _ => template_ends halternates hnames
    vars := rfl
    sorted := Needs.pairwise_ofVars _
    envVars := fun _ => Needs.mem_envVars_ofVars_iff
    loginBaseUrl := Needs.loginBaseUrl_ofVars_iff }

/-- A text with variables has an expression, which stands for the text with the values of all
variables in it. -/
theorem standsFor_ofTemplate? (raw : String) (hvars : Spec.Placeholder.vars raw ≠ []) :
    ∃ e, Expr.ofTemplate? raw = some e ∧ StandsFor e raw := by
  unfold Expr.ofTemplate?
  split
  · rename_i name hsole
    exact ⟨_, rfl, standsFor_binding hsole⟩
  · rename_i hsole
    rw [if_neg (by simpa using hvars)]
    exact ⟨_, rfl, standsFor_template hsole⟩

/-- Two variables among all characters that mean something inside backquotes. -/
def owed : String :=
  "\\\x60\x7b\x7bUSER\x7d\x7d\x60 owes $\x7b\x7b PRICE \x7d\x7d, not $\x7bprice\x7d\\"

theorem standsFor_ofTemplate?_owed :
    Spec.Placeholder.vars owed ≠ [] ∧ ∃ e, Expr.ofTemplate? owed = some e ∧
      evaluate? (fun name => if name = "user" then "Ann" else "$\x7b5\x7d") e.text =
        some "\\\x60Ann\x60 owes $$\x7b5\x7d, not $\x7bprice\x7d\\" ∧
      e.vars = ["USER", "PRICE"] := by
  have hvars : Spec.Placeholder.vars owed = ["USER", "PRICE"] := by decide +kernel
  obtain ⟨e, he, h⟩ := standsFor_ofTemplate? owed (by simp [hvars])
  have hsole : ¬ IsSole owed := by
    rintro ⟨name, hname⟩
    have hlength : (Spec.Placeholder.inked owed.toList).length = 5 := by decide +kernel
    simp [hname] at hlength
  refine ⟨by simp [hvars], e, he, ?_, h.vars.trans hvars⟩
  rw [h.exact hsole (by decide)]
  decide +kernel

end TraceExport.Script
