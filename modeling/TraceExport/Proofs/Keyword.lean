import TraceExport.Proofs.Lexeme
import TraceExport.Proofs.Registry

/-!
Names that a script can declare. Whatever a name is made from, it can be declared: it has the shape
of an identifier and is no word of the language (`isDeclarable_names`). A number behind it, which a
claim adds when the name is taken, changes nothing about that.
-/

namespace TraceExport.Script

/-- The words that a script cannot declare: those that are reserved everywhere, those that are
reserved in modules and other strict code, and two names that such code cannot bind. -/
def keywords : List String :=
  ["await", "break", "case", "catch", "class", "const", "continue", "debugger", "default",
    "delete", "do", "else", "enum", "export", "extends", "false", "finally", "for", "function",
    "if", "import", "in", "instanceof", "new", "null", "return", "super", "switch", "this",
    "throw", "true", "try", "typeof", "var", "void", "while", "with", "yield"] ++
  ["implements", "interface", "let", "package", "private", "protected", "public", "static"] ++
  ["arguments", "eval"]

theorem keywords_subset_reservedWords : keywords ⊆ reservedWords := by decide

/-- A name that can be declared, by its shape and by the words that the language and the program
keep for themselves. -/
structure IsDeclarable (name : String) : Prop extends IsBindable name where
  noKeyword : name ∉ keywords

theorem IsBindable.isDeclarable {name : String} (h : IsBindable name) : IsDeclarable name :=
  ⟨h, fun hmem => h.not_mem_reservedWords (keywords_subset_reservedWords hmem)⟩

theorem IsBindable.claim {name : String} (h : IsBindable name) (r : Registry) :
    IsBindable (r.claim name).1 := by
  rw [Registry.claim_fst]
  obtain ⟨-, heq⟩ | ⟨-, k, heq, -⟩ := r.freeName_cases name
  · rwa [heq]
  · rw [heq]
    exact h.numbered (k + 2)

/-- Every name of a script can be declared: those made from elements, from texts and from
variables, the bindings of variables, which stay clear of the file's own names unless they are
addresses, and what a claim makes of any such name, whatever is taken. -/
theorem isDeclarable_names :
    (∀ f, IsDeclarable (elementName f)) ∧ (∀ text, IsDeclarable (textName text)) ∧
      (∀ vars, IsDeclarable (variablesName vars)) ∧
      (∀ var, Spec.Placeholder.isName var → IsDeclarable (variableName var) ∧
        (var ≠ Spec.Placeholder.baseUrl → var ≠ Spec.Placeholder.loginBaseUrl →
          variableName var ∉ fileBindings)) ∧
      ∀ name, IsDeclarable name → ∀ r : Registry, IsDeclarable (r.claim name).1 := by
  refine ⟨fun f => (isBindable_elementName f).isDeclarable,
    fun text => (isBindable_textName text).isDeclarable,
    fun vars => (isBindable_variablesName vars).isDeclarable, fun var hvar => ⟨?_, ?_⟩,
    fun name hname r => (hname.toIsBindable.claim r).isDeclarable⟩
  · exact (isBindable_variableName hvar).isDeclarable
  · intro hbase hlogin
    exact variableName_not_mem_fileBindings (by simp [Spec.Placeholder.isAddress, hbase, hlogin])

/-- A variable that would be a keyword, with its binding taken twice. -/
theorem isDeclarable_names_class :
    Spec.Placeholder.isName "CLASS" ∧ variableName "CLASS" = "class_" ∧
      variableName "CLASS" ∉ fileBindings ∧
      ((⟨["class_", "class_2"]⟩ : Registry).claim (variableName "CLASS")).1 = "class_3" ∧
      IsDeclarable "class_3" := by
  obtain ⟨-, -, -, hvariable, hclaim⟩ := isDeclarable_names
  have hname : Spec.Placeholder.isName "CLASS" := by decide
  obtain ⟨hdeclarable, hapart⟩ := hvariable "CLASS" hname
  have hclaimed : ((⟨["class_", "class_2"]⟩ : Registry).claim (variableName "CLASS")).1 =
      "class_3" := by decide +kernel
  exact ⟨hname, by decide, hapart (by decide) (by decide), hclaimed,
    hclaimed ▸ hclaim _ hdeclarable ⟨["class_", "class_2"]⟩⟩

end TraceExport.Script
