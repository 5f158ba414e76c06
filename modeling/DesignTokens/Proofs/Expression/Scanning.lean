import DesignTokens.Proofs.Expression.Grammar

set_option autoImplicit false

/-! # Scanning recognises formulas

`Expression.parse` calls a value numeric when it was cut into terms without a gap and every
term was classified as a number or a reference. `parse_numeric_iff` says that these are the
words of the grammar, and that the atoms are those of the derivation, which is unique.

A word is cut at its operators because no operator is a character of a term
(`scanRest_of_operatorTerms`). Where scanning leaves a gap or a term that is no word, it
leaves verbatim text, so atoms without verbatim text are a derivation
(`operatorTerms_of_scanRest`).
-/

namespace DesignTokens

theorem TermWord.isVerbatim_eq_false {term : List Char} {atom : Atom} (h : TermWord term atom) :
    atom.isVerbatim = false := by
  cases h <;> rfl

/-! ## Words are cut at their operators -/

/-- A run of term characters is taken as a whole. -/
theorem splitTerm?_run {run rest : List Char} (hne : run ≠ [])
    (hrun : ∀ c ∈ run, isTermChar c = true) (hrest : ∀ c ∈ rest.head?, isTermChar c = false) :
    splitTerm? (run ++ rest) = some (run, rest) := by
  have htake := takeWhile_append_of_head hrun hrest
  have hdrop := dropWhile_append_of_head hrun hrest
  obtain ⟨c, run, rfl⟩ := List.exists_cons_of_ne_nil hne
  -- a run of term characters does not start a reference
  have hbrace : c ≠ '{' := by
    rintro rfl
    exact absurd (hrun '{' List.mem_cons_self) (by decide)
  unfold splitTerm?
  split
  · rename_i hcons
    exact absurd (List.cons.inj hcons).1 hbrace
  · rw [htake, hdrop]

/-- A reference is taken up to its closing brace. -/
theorem splitTerm?_reference {path : List Char} (hne : path ≠ [])
    (hpath : ∀ c ∈ path, isPathChar c = true) (rest : List Char) :
    splitTerm? ('{' :: (path ++ '}' :: rest)) = some ('{' :: (path ++ ['}']), rest) := by
  have hbrace : ∀ c ∈ ('}' :: rest).head?, isPathChar c = false := by
    intro c hc
    cases hc
    decide
  obtain ⟨c, path, rfl⟩ := List.exists_cons_of_ne_nil hne
  have htake := takeWhile_append_of_head hpath hbrace
  have hdrop := dropWhile_append_of_head hpath hbrace
  simp only [List.cons_append] at htake hdrop ⊢
  simp only [splitTerm?, htake, hdrop]
  rfl

theorem splitTerm?_of_termWord {term rest : List Char} {atom : Atom} (h : TermWord term atom)
    (hrest : ∀ c ∈ rest.head?, isTermChar c = false) :
    splitTerm? (term ++ rest) = some (term, rest) := by
  cases h with
  | reference hne hpath =>
      rw [List.cons_append, List.append_assoc]
      exact splitTerm?_reference hne hpath rest
  | @number whole places text unit value hwhole hplaces htext hvalue hunit =>
      refine splitTerm?_run ?_ (htext.isTermChar hwhole hplaces hunit) hrest
      exact List.append_ne_nil_of_left_ne_nil htext.ne_nil unit

/-- Terms with operators start with a character that ends a term before them. -/
theorem OperatorTerms.head? {text : List Char} {atoms : List Atom} (h : OperatorTerms text atoms) :
    ∀ c ∈ text.head?, isTermChar c = false := by
  intro c hc
  cases h with
  | nil => cases hc
  | cons op hterm hrest =>
      cases hc
      exact isTermChar_toChar op

theorem splitTerm?_operator (op : Operator) (text : List Char) :
    splitTerm? (op.toChar :: text) = none := by
  cases op <;> rfl

theorem scanRest_operator {op : Operator} {text term rest : List Char}
    (h : splitTerm? text = some (term, rest)) :
    scanRest (op.toChar :: text) = .term (some op) term :: scanRest rest := by
  rw [scanRest]
  simp only [Operator.ofChar?_toChar]
  split <;> simp_all

theorem scanRest_of_operatorTerms {text : List Char} {atoms : List Atom}
    (h : OperatorTerms text atoms) : (scanRest text).flatMap Piece.atoms = atoms := by
  induction h with
  | nil => simp [scanRest]
  | cons op hterm hrest ih =>
      rw [scanRest_operator (splitTerm?_of_termWord hterm hrest.head?), List.flatMap_cons, ih,
        Piece.atoms, Atom.ofTerm_of_termWord hterm]
      rfl

/-- The atoms of a word are those of its derivation. -/
theorem atomsOf_of_formulaWord {text : List Char} {atoms : List Atom}
    (h : FormulaWord text atoms) : Expression.atomsOf text = atoms := by
  cases h with
  | plain hterm hrest =>
      rw [Expression.atomsOf, scan, splitTerm?_of_termWord hterm hrest.head?]
      simp [Piece.atoms, Atom.ofTerm_of_termWord hterm, scanRest_of_operatorTerms hrest]
  | signed op hterm hrest =>
      rw [Expression.atomsOf, scan, splitTerm?_operator]
      exact scanRest_of_operatorTerms (.cons op hterm hrest)

theorem any_isVerbatim_of_operatorTerms {text : List Char} {atoms : List Atom}
    (h : OperatorTerms text atoms) : atoms.any Atom.isVerbatim = false := by
  induction h with
  | nil => rfl
  | cons op hterm hrest ih =>
      rw [List.any_cons, List.any_cons, ih, hterm.isVerbatim_eq_false]
      rfl

theorem isFormula_of_formulaWord {text : List Char} {atoms : List Atom}
    (h : FormulaWord text atoms) : Expression.isFormula atoms = true := by
  cases h with
  | plain hterm hrest =>
      simp [Expression.isFormula, hterm.isVerbatim_eq_false,
        any_isVerbatim_of_operatorTerms hrest]
  | signed op hterm hrest =>
      rw [Expression.isFormula, any_isVerbatim_of_operatorTerms (.cons op hterm hrest)]
      rfl

/-! ## Atoms without verbatim text are a derivation -/

/-- A gap leaves verbatim text. -/
theorem any_isVerbatim_consGap (c : Char) (pieces : List Piece) :
    ((Piece.consGap c pieces).flatMap Piece.atoms).any Atom.isVerbatim = true := by
  unfold Piece.consGap
  split <;> rfl

theorem operatorTerms_of_scanRest {text : List Char}
    (h : ((scanRest text).flatMap Piece.atoms).any Atom.isVerbatim = false) :
    OperatorTerms text ((scanRest text).flatMap Piece.atoms) := by
  fun_induction scanRest text with
  | case1 => exact .nil
  | case2 c cs hop ih =>
      rw [any_isVerbatim_consGap] at h
      cases h
  | case3 c cs op hop hsplit ih =>
      rw [any_isVerbatim_consGap] at h
      cases h
  | case4 c cs op hop term rest hsplit hle ih =>
      rw [List.flatMap_cons, List.any_append, Bool.or_eq_false_iff] at h
      obtain ⟨hpiece, hpieces⟩ := h
      -- the term was classified, so it is a word, and the rest is shorter
      have hterm : (Atom.ofTerm term).isVerbatim = false := by
        simpa [Piece.atoms, Atom.isVerbatim] using hpiece
      rw [← Operator.toChar_of_ofChar? hop, ← splitTerm?_append hsplit]
      exact .cons op (Atom.termWord_ofTerm hterm) (ih hpieces)

theorem formulaWord_of_isFormula {text : List Char}
    (h : Expression.isFormula (Expression.atomsOf text) = true) :
    FormulaWord text (Expression.atomsOf text) := by
  rw [Expression.isFormula, Bool.and_eq_true, Bool.not_eq_true', Bool.not_eq_true'] at h
  obtain ⟨hne, hverbatim⟩ := h
  cases hsplit : splitTerm? text with
  | none =>
      have hatoms : Expression.atomsOf text = (scanRest text).flatMap Piece.atoms := by
        rw [Expression.atomsOf, scan, hsplit]
      rw [hatoms] at hne hverbatim ⊢
      -- the text starts with an operator, or else it is empty
      have hterms := operatorTerms_of_scanRest hverbatim
      generalize (scanRest text).flatMap Piece.atoms = atoms at hne hterms ⊢
      cases hterms with
      | nil => cases hne
      | cons op hterm hrest => exact .signed op hterm hrest
  | some split =>
      obtain ⟨term, rest⟩ := split
      have hatoms : Expression.atomsOf text =
          .ofTerm term :: (scanRest rest).flatMap Piece.atoms := by
        rw [Expression.atomsOf, scan, hsplit]
        rfl
      rw [hatoms] at hverbatim ⊢
      rw [List.any_cons, Bool.or_eq_false_iff] at hverbatim
      obtain ⟨hterm, hpieces⟩ := hverbatim
      rw [← splitTerm?_append hsplit]
      exact .plain (Atom.termWord_ofTerm hterm) (operatorTerms_of_scanRest hpieces)

/-- A text is classified as a formula exactly when it is a word of the grammar. -/
theorem isFormula_atomsOf_iff {text : List Char} :
    Expression.isFormula (Expression.atomsOf text) = true ↔ ∃ atoms, FormulaWord text atoms := by
  constructor
  · intro h
    exact ⟨_, formulaWord_of_isFormula h⟩
  · rintro ⟨atoms, hword⟩
    rw [atomsOf_of_formulaWord hword]
    exact isFormula_of_formulaWord hword

theorem Expression.parse_of_notMem {text : String} (h : '(' ∉ text.toList) :
    Expression.parse text = .ok ⟨stripBlanks text, Expression.atomsOf (stripBlanks text).toList,
      Expression.isFormula (Expression.atomsOf (stripBlanks text).toList)⟩ := by
  rw [Expression.parse, if_neg]
  simpa using h

/-- The text of a numeric expression is a word of the grammar. -/
theorem Expression.formulaWord_of_parse {text : String} {e : Expression}
    (h : Expression.parse text = .ok e) (hnumeric : e.numeric = true) :
    FormulaWord (stripBlanks text).toList e.atoms := by
  unfold Expression.parse at h
  split at h
  · cases h
  · cases h
    exact formulaWord_of_isFormula hnumeric

/-- A text without blanks is kept. -/
theorem stripBlanks_eq_self {text : String} (h : ∀ c ∈ text.toList, isBlank c = false) :
    stripBlanks text = text := by
  apply String.toList_inj.mp
  rw [toList_stripBlanks, List.filter_eq_self]
  intro c hc
  rw [h c hc]
  rfl

/-- A word of the grammar without blanks and parentheses is read as its derivation. -/
theorem Expression.parse_of_formulaWord {text : String} {atoms : List Atom}
    (hchars : ∀ c ∈ text.toList, c ≠ '(' ∧ isBlank c = false)
    (hword : FormulaWord text.toList atoms) : parse text = .ok ⟨text, atoms, true⟩ := by
  have hparen : '(' ∉ text.toList := fun hin => (hchars '(' hin).1 rfl
  have hblanks : stripBlanks text = text := stripBlanks_eq_self fun c hc => (hchars c hc).2
  rw [parse_of_notMem hparen, hblanks, atomsOf_of_formulaWord hword,
    isFormula_of_formulaWord hword]

/-- **Numeric values are exactly the words of the grammar.** A text without an opening
parenthesis is read; its value is numeric exactly when the text without blanks is a formula,
and then its atoms are the operators and terms of the only derivation, in order. The numbers
of a formula have ASCII digits: a term is cut at digits of any script, but one of another
script is not read, wherever it stands in the number. -/
theorem parse_numeric_iff {text : String} (h : '(' ∉ text.toList) :
    ∃ e, Expression.parse text = .ok e ∧
      (e.numeric = true ↔ ∃ atoms, FormulaWord (stripBlanks text).toList atoms) ∧
      ∀ atoms, FormulaWord (stripBlanks text).toList atoms → atoms = e.atoms := by
  refine ⟨_, Expression.parse_of_notMem h, isFormula_atomsOf_iff, ?_⟩
  intro atoms hword
  exact (atomsOf_of_formulaWord hword).symm

-- The last digit stands behind the one that would round the number, and is still refused.
example : Expression.atomsOf "0.00000000000000000000000000011\u0663".toList =
    [.verbatim "0.00000000000000000000000000011\u0663"] := by
  decide +kernel

/-- The derivation of `-4.px*{a.b}`. -/
theorem formulaWord_signed : FormulaWord "-4.px*{a.b}".toList
    [.operator .subtract, .number ⟨4, 0, by decide, by decide⟩ "px" "4.px", .operator .multiply,
      .reference "{a.b}"] := by
  have hwhole : ∀ c ∈ ['4'], isDecimalDigit c = true := List.all_eq_true.mp (by decide)
  have hplaces : ∀ c ∈ [], isDecimalDigit c = true := List.all_eq_true.mp (by decide)
  have hunit : ∀ c ∈ ['p', 'x'], isUnitChar c = true := List.all_eq_true.mp (by decide)
  have hpath : ∀ c ∈ ['a', '.', 'b'], isPathChar c = true := List.all_eq_true.mp (by decide)
  have hnumber : TermWord "4.px".toList (.number ⟨4, 0, by decide, by decide⟩ "px" "4.px") :=
    .number hwhole hplaces (.pointed (List.cons_ne_nil _ _)) (by decide) hunit
  have hreference : TermWord "{a.b}".toList (.reference "{a.b}") :=
    .reference (List.cons_ne_nil _ _) hpath
  exact .signed .subtract hnumber (.cons .multiply hreference .nil)

theorem parse_numeric_signed :
    '(' ∉ "- 4.px * {a.b}".toList ∧
      ∃ e, Expression.parse "- 4.px * {a.b}" = .ok e ∧ e.numeric = true ∧
        [.operator .subtract, .number ⟨4, 0, by decide, by decide⟩ "px" "4.px",
          .operator .multiply, .reference "{a.b}"] = e.atoms := by
  have hblanks : stripBlanks "- 4.px * {a.b}" = "-4.px*{a.b}" := by decide +kernel
  obtain ⟨e, hparse, hnumeric, hatoms⟩ :=
    @parse_numeric_iff "- 4.px * {a.b}" (by decide)
  rw [hblanks] at hnumeric hatoms
  exact ⟨by decide, e, hparse, hnumeric.mpr ⟨_, formulaWord_signed⟩, hatoms _ formulaWord_signed⟩

end DesignTokens
