import DesignTokens.Expression.Basic

set_option autoImplicit false

/-! # The grammar of formulas

The texts that are formulas, as a grammar on characters: `[op] T (op T)*`, where a term `T`
is a path in braces or a number with a unit, and a number is written `D`, `D.`, `D.D` or
`.D`. A derivation carries the atoms it stands for (`TermWord`, `OperatorTerms`,
`FormulaWord`).

The scanner does not follow this grammar: it finds terms first and classifies them later.
For single terms the two are compared here (`ofTerm_of_termWord`, `termWord_ofTerm`), for
whole texts in `Proofs/Expression/Scanning.lean`.
-/

namespace DesignTokens

/-! ## Words -/

/-- The written forms of a number with these digits before and after its point. -/
inductive NumberWord : (whole places text : List Char) → Prop
  | integer {whole : List Char} (hne : whole ≠ []) : NumberWord whole [] whole
  | pointed {whole : List Char} (hne : whole ≠ []) : NumberWord whole [] (whole ++ ['.'])
  | mixed {whole places : List Char} (hwhole : whole ≠ []) (hplaces : places ≠ []) :
      NumberWord whole places (whole ++ '.' :: places)
  | fraction {places : List Char} (hne : places ≠ []) : NumberWord [] places ('.' :: places)

/-- A term and the atom it stands for. -/
inductive TermWord : List Char → Atom → Prop
  | reference {path : List Char} (hne : path ≠ []) (hpath : ∀ c ∈ path, isPathChar c = true) :
      TermWord ('{' :: (path ++ ['}'])) (.reference (String.ofList ('{' :: (path ++ ['}']))))
  | number {whole places text unit : List Char} {value : Decimal}
      (hwhole : ∀ c ∈ whole, isDecimalDigit c = true)
      (hplaces : ∀ c ∈ places, isDecimalDigit c = true) (htext : NumberWord whole places text)
      (hvalue : Decimal.read? whole places = some value)
      (hunit : ∀ c ∈ unit, isUnitChar c = true) :
      TermWord (text ++ unit) (.number value (String.ofList unit) (String.ofList (text ++ unit)))

/-- Terms with an operator before each. -/
inductive OperatorTerms : List Char → List Atom → Prop
  | nil : OperatorTerms [] []
  | cons {term text : List Char} {atom : Atom} {atoms : List Atom} (op : Operator)
      (hterm : TermWord term atom) (hrest : OperatorTerms text atoms) :
      OperatorTerms (op.toChar :: (term ++ text)) (.operator op :: atom :: atoms)

/-- A formula: a term, with or without an operator before it, and terms with operators. -/
inductive FormulaWord : List Char → List Atom → Prop
  | plain {term text : List Char} {atom : Atom} {atoms : List Atom} (hterm : TermWord term atom)
      (hrest : OperatorTerms text atoms) : FormulaWord (term ++ text) (atom :: atoms)
  | signed {term text : List Char} {atom : Atom} {atoms : List Atom} (op : Operator)
      (hterm : TermWord term atom) (hrest : OperatorTerms text atoms) :
      FormulaWord (op.toChar :: (term ++ text)) (.operator op :: atom :: atoms)

theorem NumberWord.of_point {whole places : List Char} (hne : whole ≠ [] ∨ places ≠ []) :
    NumberWord whole places (whole ++ '.' :: places) := by
  by_cases hwhole : whole = []
  · rcases hne with hne | hne
    · exact absurd hwhole hne
    · subst hwhole
      exact fraction hne
  · by_cases hplaces : places = []
    · subst hplaces
      exact pointed hwhole
    · exact mixed hwhole hplaces

theorem NumberWord.ne_nil {whole places text : List Char} (h : NumberWord whole places text) :
    text ≠ [] := by
  cases h with
  | integer hne => exact hne
  | pointed hne => exact List.append_ne_nil_of_left_ne_nil hne _
  | mixed hne _ => exact List.append_ne_nil_of_left_ne_nil hne _
  | fraction hne => exact List.cons_ne_nil _ _

/-! ## Characters -/

theorem toNat_of_isDecimalDigit {c : Char} (h : isDecimalDigit c = true) :
    48 ≤ c.toNat ∧ c.toNat ≤ 57 := by
  simp only [isDecimalDigit, Bool.and_eq_true, decide_eq_true_eq, Char.le_def] at h
  exact h

theorem toNat_of_isUnitChar {c : Char} (h : isUnitChar c = true) :
    (65 ≤ c.toNat ∧ c.toNat ≤ 90) ∨ (97 ≤ c.toNat ∧ c.toNat ≤ 122) ∨ c = '%' := by
  simp only [isUnitChar, isCapital, isSmall, Bool.and_eq_true, Bool.or_eq_true,
    decide_eq_true_eq, Char.le_def, beq_iff_eq, or_assoc] at h
  exact h

theorem isTermChar_of_isDecimalDigit {c : Char} (h : isDecimalDigit c = true) :
    isTermChar c = true := by
  have hrange := toNat_of_isDecimalDigit h
  have hascii : c.toNat < 128 := by omega
  simp [isTermChar, isPathChar, isWordChar, hascii, h]

theorem toNat_lt_of_isUnitChar {c : Char} (h : isUnitChar c = true) : c.toNat < 128 := by
  rcases toNat_of_isUnitChar h with hrange | hrange | rfl
  · omega
  · omega
  · decide

theorem isTermChar_of_isUnitChar {c : Char} (h : isUnitChar c = true) : isTermChar c = true := by
  by_cases hpercent : c = '%'
  · simp [isTermChar, hpercent]
  · have hascii := toNat_lt_of_isUnitChar h
    simp only [isUnitChar, Bool.or_eq_true, beq_iff_eq, hpercent, or_false] at h
    rcases h with h | h <;> simp [isTermChar, isPathChar, isWordChar, hascii, h]

theorem isDecimalDigit_of_isUnitChar {c : Char} (h : isUnitChar c = true) :
    isDecimalDigit c = false := by
  rw [Bool.eq_false_iff]
  intro hdigit
  have hdigit := toNat_of_isDecimalDigit hdigit
  rcases toNat_of_isUnitChar h with hrange | hrange | rfl
  · omega
  · omega
  · exact absurd hdigit (by decide)

theorem isAnyDigit_of_isDecimalDigit {c : Char} (h : isDecimalDigit c = true) :
    isAnyDigit c = true := by
  have hrange := toNat_of_isDecimalDigit h
  have hascii : c.toNat < 128 := by omega
  rwa [isAnyDigit, if_pos hascii]

/-- A unit does not start with a digit of any script. -/
theorem isAnyDigit_of_isUnitChar {c : Char} (h : isUnitChar c = true) : isAnyDigit c = false := by
  rw [isAnyDigit, if_pos (toNat_lt_of_isUnitChar h)]
  exact isDecimalDigit_of_isUnitChar h

theorem isTermChar_toChar (op : Operator) : isTermChar op.toChar = false := by
  cases op <;> decide

theorem NumberWord.isTermChar {whole places text unit : List Char}
    (h : NumberWord whole places text) (hwhole : ∀ c ∈ whole, isDecimalDigit c = true)
    (hplaces : ∀ c ∈ places, isDecimalDigit c = true) (hunit : ∀ c ∈ unit, isUnitChar c = true) :
    ∀ c ∈ text ++ unit, isTermChar c = true := by
  have hpoint : DesignTokens.isTermChar '.' = true := by decide
  have hmem : ∀ c ∈ text, c ∈ whole ∨ c = '.' ∨ c ∈ places := by
    intro c hc
    cases h with
    | integer hne => exact Or.inl hc
    | pointed hne => simpa using hc
    | mixed hwhole hplaces => simpa using hc
    | fraction hne => simpa using hc
  intro c hc
  rcases List.mem_append.mp hc with hc | hc
  · rcases hmem c hc with hc | rfl | hc
    · exact isTermChar_of_isDecimalDigit (hwhole c hc)
    · exact hpoint
    · exact isTermChar_of_isDecimalDigit (hplaces c hc)
  · exact isTermChar_of_isUnitChar (hunit c hc)

/-! ## Runs of characters -/

section

variable {p : Char → Bool} {xs rest : List Char}

/-- A run ends where a character is not of its class. -/
theorem takeWhile_append_of_head (hxs : ∀ c ∈ xs, p c = true)
    (hrest : ∀ c ∈ rest.head?, p c = false) : (xs ++ rest).takeWhile p = xs := by
  rw [List.takeWhile_append_of_pos hxs]
  cases rest with
  | nil => simp
  | cons c rest => simp [hrest c (by simp)]

theorem dropWhile_append_of_head (hxs : ∀ c ∈ xs, p c = true)
    (hrest : ∀ c ∈ rest.head?, p c = false) : (xs ++ rest).dropWhile p = rest := by
  rw [List.dropWhile_append_of_pos hxs]
  cases rest with
  | nil => simp
  | cons c rest => simp [hrest c (by simp)]

end

/-! ## Reading a term -/

namespace Atom

theorem splitNumber?_point {whole places unit : List Char}
    (hwhole : ∀ c ∈ whole, isAnyDigit c = true)
    (hplaces : ∀ c ∈ places, isAnyDigit c = true) (hunit : ∀ c ∈ unit, isUnitChar c = true)
    (hne : whole ≠ [] ∨ places ≠ []) :
    splitNumber? (whole ++ '.' :: (places ++ unit)) = some (whole, places, unit) := by
  have hpoint : ∀ c ∈ ('.' :: (places ++ unit)).head?, isAnyDigit c = false := by
    intro c hc
    cases hc
    decide
  have hhead : ∀ c ∈ unit.head?, isAnyDigit c = false := fun c hc =>
    isAnyDigit_of_isUnitChar (hunit c (List.mem_of_mem_head? hc))
  unfold splitNumber?
  simp only [takeWhile_append_of_head hwhole hpoint, dropWhile_append_of_head hwhole hpoint,
    takeWhile_append_of_head hplaces hhead, dropWhile_append_of_head hplaces hhead]
  rw [if_pos]
  rcases hne with hne | hne <;> simpa [hne] using hunit

theorem splitNumber?_integer {whole unit : List Char}
    (hwhole : ∀ c ∈ whole, isAnyDigit c = true) (hunit : ∀ c ∈ unit, isUnitChar c = true)
    (hne : whole ≠ []) : splitNumber? (whole ++ unit) = some (whole, [], unit) := by
  have hhead : ∀ c ∈ unit.head?, isAnyDigit c = false := fun c hc =>
    isAnyDigit_of_isUnitChar (hunit c (List.mem_of_mem_head? hc))
  unfold splitNumber?
  simp only [takeWhile_append_of_head hwhole hhead, dropWhile_append_of_head hwhole hhead]
  split
  · -- a unit does not start with a point
    rename_i rest
    exact absurd (hunit '.' List.mem_cons_self) (by decide)
  · rw [if_pos]
    simpa [hne] using hunit

/-- Every written form of a number is split into its digits and its unit, whatever script the
digits are of. -/
theorem splitNumber?_of_numberWord {whole places text unit : List Char}
    (hwhole : ∀ c ∈ whole, isAnyDigit c = true)
    (hplaces : ∀ c ∈ places, isAnyDigit c = true) (hunit : ∀ c ∈ unit, isUnitChar c = true)
    (h : NumberWord whole places text) :
    splitNumber? (text ++ unit) = some (whole, places, unit) := by
  cases h with
  | integer hne => exact splitNumber?_integer hwhole hunit hne
  | pointed hne =>
      have hsplit := splitNumber?_point hwhole hplaces hunit (Or.inl hne)
      rwa [List.append_assoc]
  | mixed hne _ =>
      have hsplit := splitNumber?_point hwhole hplaces hunit (Or.inl hne)
      rwa [List.append_assoc]
  | fraction hne => exact splitNumber?_point hwhole hplaces hunit (Or.inr hne)

/-- Only written forms of a number with a unit are split. -/
theorem numberWord_of_splitNumber? {term whole places unit : List Char}
    (h : splitNumber? term = some (whole, places, unit)) :
    (∀ c ∈ whole, isAnyDigit c = true) ∧ (∀ c ∈ places, isAnyDigit c = true) ∧
      (∀ c ∈ unit, isUnitChar c = true) ∧
      ∃ text, NumberWord whole places text ∧ text ++ unit = term := by
  have hdigits : ∀ (xs : List Char), ∀ c ∈ xs.takeWhile isAnyDigit, isAnyDigit c = true :=
    fun xs => List.all_eq_true.mp List.all_takeWhile
  have hterm := List.takeWhile_append_dropWhile (p := isAnyDigit) (l := term)
  unfold splitNumber? at h
  simp only at h
  split at h
  · -- a point follows the first digits
    rename_i rest hrest
    split at h
    · rename_i hcond
      simp only [Option.some.injEq, Prod.mk.injEq] at h
      obtain ⟨rfl, rfl, rfl⟩ := h
      have hsplit := List.takeWhile_append_dropWhile (p := isAnyDigit) (l := rest)
      simp only [Bool.and_eq_true, Bool.not_eq_true', Bool.and_eq_false_imp] at hcond
      obtain ⟨hsome, hunit⟩ := hcond
      have hne : term.takeWhile isAnyDigit ≠ [] ∨ rest.takeWhile isAnyDigit ≠ [] := by
        by_cases hwhole : term.takeWhile isAnyDigit = []
        · exact Or.inr (by simpa [hwhole] using hsome)
        · exact Or.inl hwhole
      refine ⟨hdigits term, hdigits rest, List.all_eq_true.mp hunit, _, .of_point hne, ?_⟩
      rw [List.append_assoc, List.cons_append, hsplit, ← hrest, hterm]
    · cases h
  · split at h
    · rename_i hcond
      simp only [Option.some.injEq, Prod.mk.injEq] at h
      obtain ⟨rfl, rfl, rfl⟩ := h
      simp only [Bool.and_eq_true, Bool.not_eq_true', List.isEmpty_eq_false_iff] at hcond
      refine ⟨hdigits term, ?_, List.all_eq_true.mp hcond.2, _, .integer hcond.1, hterm⟩
      intro c hc
      cases hc
    · cases h

/-- A written number is the number its digits are read as, with its unit. -/
theorem ofNumber?_of_numberWord {whole places text unit : List Char}
    (hwhole : ∀ c ∈ whole, isDecimalDigit c = true)
    (hplaces : ∀ c ∈ places, isDecimalDigit c = true) (hunit : ∀ c ∈ unit, isUnitChar c = true)
    (h : NumberWord whole places text) :
    ofNumber? (text ++ unit) = (Decimal.read? whole places).map fun value =>
      .number value (String.ofList unit) (String.ofList (text ++ unit)) := by
  have hsplit := splitNumber?_of_numberWord
    (fun c hc => isAnyDigit_of_isDecimalDigit (hwhole c hc))
    (fun c hc => isAnyDigit_of_isDecimalDigit (hplaces c hc)) hunit h
  rw [ofNumber?, hsplit, Option.map_eq_bind]
  rfl

theorem isReferenceTerm_iff {term : List Char} :
    isReferenceTerm term = true ↔
      ∃ path, path ≠ [] ∧ (∀ c ∈ path, isPathChar c = true) ∧ term = '{' :: (path ++ ['}']) := by
  constructor
  · intro h
    unfold isReferenceTerm at h
    split at h
    · rename_i rest
      split at h
      · rename_i hrest
        refine ⟨rest.takeWhile isPathChar, by simpa using h,
          List.all_eq_true.mp List.all_takeWhile, ?_⟩
        rw [← hrest, List.takeWhile_append_dropWhile]
      · cases h
    · cases h
  · rintro ⟨path, hne, hpath, rfl⟩
    have hbrace : ∀ c ∈ ['}'].head?, isPathChar c = false := by
      intro c hc
      cases hc
      decide
    simp only [isReferenceTerm, takeWhile_append_of_head hpath hbrace,
      dropWhile_append_of_head hpath hbrace]
    simpa using hne

/-- A run of term characters is no reference, as it holds no brace. -/
theorem isReferenceTerm_of_isTermChar {run : List Char} (hrun : ∀ c ∈ run, isTermChar c = true) :
    isReferenceTerm run = false := by
  rw [Bool.eq_false_iff]
  intro href
  obtain ⟨path, -, -, rfl⟩ := isReferenceTerm_iff.mp href
  exact absurd (hrun '{' List.mem_cons_self) (by decide)

/-- A term of the grammar is read as the atom it stands for. -/
theorem ofTerm_of_termWord {term : List Char} {atom : Atom} (h : TermWord term atom) :
    ofTerm term = atom := by
  cases h with
  | reference hne hpath => exact if_pos (isReferenceTerm_iff.mpr ⟨_, hne, hpath, rfl⟩)
  | @number whole places text unit value hwhole hplaces htext hvalue hunit =>
      have hnot : isReferenceTerm (text ++ unit) = false :=
        isReferenceTerm_of_isTermChar (htext.isTermChar hwhole hplaces hunit)
      rw [ofTerm, hnot, ofNumber?_of_numberWord hwhole hplaces hunit htext, hvalue]
      rfl

/-- A term that is not read as verbatim text is one of the grammar. -/
theorem termWord_ofTerm {term : List Char} (h : (ofTerm term).isVerbatim = false) :
    TermWord term (ofTerm term) := by
  by_cases href : isReferenceTerm term = true
  · obtain ⟨path, hne, hpath, rfl⟩ := isReferenceTerm_iff.mp href
    rw [ofTerm, if_pos href]
    exact .reference hne hpath
  · rw [ofTerm, if_neg href] at h ⊢
    cases hnumber : ofNumber? term with
    | none =>
        rw [hnumber] at h
        cases h
    | some atom =>
        unfold ofNumber? at hnumber
        obtain ⟨⟨whole, places, unit⟩, hsplit, hnumber⟩ := Option.bind_eq_some_iff.mp hnumber
        obtain ⟨value, hvalue, hatom⟩ := Option.bind_eq_some_iff.mp hnumber
        obtain ⟨-, -, hunit, text, htext, rfl⟩ := numberWord_of_splitNumber? hsplit
        -- the digits may be of any script until they are read
        obtain ⟨hwhole, hplaces⟩ := Decimal.isDecimalDigit_of_read? hvalue
        cases hatom
        exact .number hwhole hplaces htext hvalue hunit

end Atom

end DesignTokens
