import DesignTokens.Proofs.Formula.Arithmetic

set_option autoImplicit false

/-! # Folding a formula is conventional arithmetic

`evaluateTerms` reads terms from left to right into products whose sign belongs to the first
factor, and adds them to zero. Here it is compared with the trees of
`Proofs/Formula/Arithmetic.lean`. Reading a written tree gives its products
(`SumTree.ofTerms?_terms`); their values are those of the tree up to the scale, because
rounding is symmetric and adding to zero keeps a value (`SumTree.value_formula`); and terms
that are no written tree are not read (`isFormula_of_ofTerms?`).
-/

namespace DesignTokens

/-! ## Reading a written tree -/

/-- The written form of a factor. -/
def Factor.terms : Factor → List Term
  | .times n => [.operator .multiply, .number n]
  | .over n => [.operator .divide, .number n]

namespace ProductTree

/-- The number a product starts with. -/
def firstNumber : ProductTree → Decimal
  | number n => n
  | times left _ => left.firstNumber
  | dividedBy left _ => left.firstNumber

/-- The numbers it is multiplied and divided by. -/
def factors : ProductTree → List Factor
  | number _ => []
  | times left n => left.factors ++ [.times n]
  | dividedBy left n => left.factors ++ [.over n]

/-- The same product as a list of factors. -/
def product (p : ProductTree) : Product := ⟨p.firstNumber, p.factors⟩

/-- The product with the sign of its first number changed. -/
def negatedProduct (p : ProductTree) : Product := ⟨p.firstNumber.neg, p.factors⟩

theorem terms_eq (p : ProductTree) :
    p.terms = .number p.firstNumber :: p.factors.flatMap Factor.terms := by
  induction p with
  | number n => rfl
  | times left n ih => simp [terms, ih, firstNumber, factors, Factor.terms]
  | dividedBy left n ih => simp [terms, ih, firstNumber, factors, Factor.terms]

end ProductTree

namespace SumTree

/-- The first product of a sum, with its sign. -/
def firstProduct : SumTree → Product
  | first p => p.product
  | positive p => p.product
  | negative p => p.negatedProduct
  | plus left _ => left.firstProduct
  | minus left _ => left.firstProduct

/-- The other products of a sum, with their signs. -/
def laterProducts : SumTree → List Product
  | first _ => []
  | positive _ => []
  | negative _ => []
  | plus left p => left.laterProducts ++ [p.product]
  | minus left p => left.laterProducts ++ [p.negatedProduct]

/-- The same sum as a list of products. -/
def formula (s : SumTree) : Formula := ⟨s.firstProduct, s.laterProducts⟩

end SumTree

namespace Formula

/-- What an operator and a number make of the factors and products after them. -/
def consPair (op : Operator) (n : Decimal) (rest : List Factor × List Product) :
    List Factor × List Product :=
  match op with
  | .multiply => (.times n :: rest.1, rest.2)
  | .divide => (.over n :: rest.1, rest.2)
  | .add => ([], ⟨n, rest.1⟩ :: rest.2)
  | .subtract => ([], ⟨n.neg, rest.1⟩ :: rest.2)

theorem restOfTerms?_pair (op : Operator) (n : Decimal) (terms : List Term) :
    restOfTerms? (.operator op :: .number n :: terms) =
      (restOfTerms? terms).map (consPair op n) := by
  rw [restOfTerms?]
  cases restOfTerms? terms with
  | none => rfl
  | some rest => cases op <;> rfl

theorem restOfTerms?_factors (factors : List Factor) (terms : List Term) :
    restOfTerms? (factors.flatMap Factor.terms ++ terms) =
      (restOfTerms? terms).map fun rest => (factors ++ rest.1, rest.2) := by
  induction factors with
  | nil => simp
  | cons factor factors ih =>
      match factor with
      | .times n =>
          show restOfTerms? (.operator .multiply :: .number n ::
            (factors.flatMap Factor.terms ++ terms)) = _
          rw [restOfTerms?_pair, ih, Option.map_map]
          rfl
      | .over n =>
          show restOfTerms? (.operator .divide :: .number n ::
            (factors.flatMap Factor.terms ++ terms)) = _
          rw [restOfTerms?_pair, ih, Option.map_map]
          rfl

/-- Terms that start with a new product are read after those before them. -/
theorem restOfTerms?_append {terms terms' : List Term} {rest : List Factor × List Product}
    {products : List Product} (h : restOfTerms? terms = some rest)
    (h' : restOfTerms? terms' = some ([], products)) :
    restOfTerms? (terms ++ terms') = some (rest.1, rest.2 ++ products) := by
  induction terms using restOfTerms?.induct generalizing rest with
  | case1 =>
      cases h
      exact h'
  | case2 op n terms ih =>
      rw [restOfTerms?_pair] at h
      obtain ⟨inner, hinner, rfl⟩ := Option.map_eq_some_iff.mp h
      show restOfTerms? (.operator op :: .number n :: (terms ++ terms')) = _
      rw [restOfTerms?_pair, ih hinner]
      cases op <;> rfl
  | case3 terms hnil hpair =>
      rw [restOfTerms?] at h
      · cases h
      · exact hnil
      · exact hpair

/-- What can be read after the first number is operators with a number each. -/
theorem pairs_of_restOfTerms? {terms : List Term} {rest : List Factor × List Product}
    (h : restOfTerms? terms = some rest) :
    ∃ pairs : List (Operator × Decimal), terms = pairs.flatMap pairTerms := by
  induction terms using restOfTerms?.induct generalizing rest with
  | case1 => exact ⟨[], rfl⟩
  | case2 op n terms ih =>
      rw [restOfTerms?_pair] at h
      obtain ⟨inner, hinner, -⟩ := Option.map_eq_some_iff.mp h
      obtain ⟨pairs, rfl⟩ := ih hinner
      exact ⟨(op, n) :: pairs, rfl⟩
  | case3 terms hnil hpair =>
      rw [restOfTerms?] at h
      · cases h
      · exact hnil
      · exact hpair

theorem startingWith?_eq (n : Decimal) (terms : List Term) :
    startingWith? n terms = (restOfTerms? terms).map fun rest => ⟨⟨n, rest.1⟩, rest.2⟩ := by
  rw [startingWith?]
  cases restOfTerms? terms <;> rfl

theorem startingWith?_append {n : Decimal} {terms terms' : List Term} {f : Formula}
    {products : List Product} (h : startingWith? n terms = some f)
    (h' : restOfTerms? terms' = some ([], products)) :
    startingWith? n (terms ++ terms') = some ⟨f.first, f.rest ++ products⟩ := by
  rw [startingWith?_eq] at h ⊢
  obtain ⟨rest, hrest, rfl⟩ := Option.map_eq_some_iff.mp h
  rw [restOfTerms?_append hrest h']
  rfl

theorem ofTerms?_append {terms terms' : List Term} {f : Formula} {products : List Product}
    (h : ofTerms? terms = some f) (h' : restOfTerms? terms' = some ([], products)) :
    ofTerms? (terms ++ terms') = some ⟨f.first, f.rest ++ products⟩ := by
  unfold ofTerms? at h
  split at h
  · exact startingWith?_append h h'
  · exact startingWith?_append h h'
  · exact startingWith?_append h h'
  · cases h

theorem isFormula_of_startingWith? {sign : List Term} (hsign : sign ∈ signTerms) {n m : Decimal}
    {terms : List Term} {f : Formula} (h : startingWith? m terms = some f) :
    IsFormula (sign ++ .number n :: terms) := by
  rw [startingWith?_eq] at h
  obtain ⟨rest, hrest, -⟩ := Option.map_eq_some_iff.mp h
  obtain ⟨pairs, rfl⟩ := pairs_of_restOfTerms? hrest
  exact ⟨sign, hsign, n, pairs, rfl⟩

/-- Only formulas are read. -/
theorem isFormula_of_ofTerms? {terms : List Term} {f : Formula} (h : ofTerms? terms = some f) :
    IsFormula terms := by
  have hnone : [] ∈ signTerms := by simp [signTerms]
  have hplus : [.operator .add] ∈ signTerms := by simp [signTerms]
  have hminus : [.operator .subtract] ∈ signTerms := by simp [signTerms]
  unfold ofTerms? at h
  split at h
  · exact isFormula_of_startingWith? hnone h
  · exact isFormula_of_startingWith? hplus h
  · exact isFormula_of_startingWith? hminus h
  · cases h

theorem restOfTerms?_product (op : Operator) (p : ProductTree) :
    restOfTerms? (.operator op :: p.terms) =
      some (consPair op p.firstNumber (p.factors, [])) := by
  have hfactors := restOfTerms?_factors p.factors []
  rw [List.append_nil] at hfactors
  rw [p.terms_eq, restOfTerms?_pair, hfactors, restOfTerms?]
  simp

theorem startingWith?_factors (n : Decimal) (p : ProductTree) :
    startingWith? n (p.factors.flatMap Factor.terms) = some ⟨⟨n, p.factors⟩, []⟩ := by
  have hfactors := restOfTerms?_factors p.factors []
  rw [List.append_nil] at hfactors
  rw [startingWith?_eq, hfactors, restOfTerms?]
  simp

end Formula

/-- The written form of a sum is read as its products. -/
theorem SumTree.ofTerms?_terms (s : SumTree) : Formula.ofTerms? s.terms = some s.formula := by
  induction s with
  | first p =>
      rw [terms, p.terms_eq]
      exact Formula.startingWith?_factors p.firstNumber p
  | positive p =>
      rw [terms, p.terms_eq]
      exact Formula.startingWith?_factors p.firstNumber p
  | negative p =>
      rw [terms, p.terms_eq]
      exact Formula.startingWith?_factors p.firstNumber.neg p
  | plus left p ih => exact Formula.ofTerms?_append ih (Formula.restOfTerms?_product .add p)
  | minus left p ih => exact Formula.ofTerms?_append ih (Formula.restOfTerms?_product .subtract p)

/-! ## Values -/

theorem orOverflow_map_neg (x : Option Decimal) :
    orOverflow (x.map Decimal.neg) = (orOverflow x).map Decimal.neg := by
  cases x <;> rfl

/-- A factor does not see the sign of the product before it. -/
theorem Product.apply_neg (a : Decimal) (factor : Factor) :
    apply a.neg factor = (apply a factor).map Decimal.neg := by
  match factor with
  | .times n => rw [apply, apply, Decimal.mul?_neg_left, orOverflow_map_neg]
  | .over n =>
      rw [apply, apply, Decimal.div?_neg_left, orOverflow_map_neg]
      split <;> rfl

theorem Product.value_append (first : Decimal) (factors : List Factor) (factor : Factor) :
    value ⟨first, factors ++ [factor]⟩ =
      (value ⟨first, factors⟩).bind fun a => apply a factor := by
  show List.foldlM apply first (factors ++ [factor]) = _
  rw [List.foldlM_append]
  simp only [List.foldlM_cons, List.foldlM_nil, bind_pure]
  rfl

namespace ProductTree

theorem value_product (p : ProductTree) : p.product.value = p.value := by
  induction p with
  | number n => rfl
  | times left n ih =>
      show Product.value ⟨left.firstNumber, left.factors ++ [.times n]⟩ = _
      rw [Product.value_append, value, ← ih]
      rfl
  | dividedBy left n ih =>
      show Product.value ⟨left.firstNumber, left.factors ++ [.over n]⟩ = _
      rw [Product.value_append, value, ← ih]
      rfl

/-- Negating the first number negates the value, and changes no error. -/
theorem value_negatedProduct (p : ProductTree) :
    p.negatedProduct.value = p.value.map Decimal.neg := by
  rw [← p.value_product]
  show Product.value ⟨p.firstNumber.neg, p.factors⟩ =
    (Product.value ⟨p.firstNumber, p.factors⟩).map Decimal.neg
  generalize p.factors = factors
  -- the sign passes from a product to the product with one more factor
  induction factors using List.reverseRecOn with
  | nil => rfl
  | append_singleton factors factor ih =>
      rw [Product.value_append, Product.value_append, ih]
      cases Product.value ⟨p.firstNumber, factors⟩ with
      | error e => rfl
      | ok a => exact Product.apply_neg a factor

end ProductTree

theorem Formula.value_append (first : Product) (rest : List Product) (p : Product) :
    value ⟨first, rest ++ [p]⟩ =
      (value ⟨first, rest⟩).bind fun total =>
        p.value.bind fun v => orOverflow (total.add? v) := by
  show List.foldlM _ Decimal.zero ((first :: rest) ++ [p]) = _
  rw [List.foldlM_append]
  simp only [List.foldlM_cons, List.foldlM_nil, bind_pure]
  rfl

/-- A sum that starts at zero has the value of its only product. -/
theorem Formula.value_single (p : Product) :
    (value ⟨p, []⟩).map Decimal.toRat = p.value.map Decimal.toRat := by
  have hvalue : value ⟨p, []⟩ = p.value.bind fun v => orOverflow (Decimal.zero.add? v) := by
    show List.foldlM _ Decimal.zero [p] = _
    simp only [List.foldlM_cons, List.foldlM_nil, bind_pure]
    rfl
  rw [hvalue]
  cases p.value with
  | error e => rfl
  | ok v =>
      obtain ⟨d, hd, hsame⟩ := Decimal.nearest?_toRat v
      show (orOverflow (Decimal.zero.add? v)).map Decimal.toRat = .ok v.toRat
      rw [Decimal.add?, Decimal.zero_toRat, zero_add, hd, ← hsame]
      rfl

/-- Two results are the same error, or decimals of one value. -/
theorem map_toRat_eq_iff {x y : Except FormulaError Decimal} :
    x.map Decimal.toRat = y.map Decimal.toRat ↔
      (∃ error, x = .error error ∧ y = .error error) ∨
        ∃ a b, x = .ok a ∧ y = .ok b ∧ a.toRat = b.toRat := by
  cases x <;> cases y <;> simp [Except.map, eq_comm]

theorem map_toRat_bind_congr {x y : Except FormulaError Decimal}
    {f g : Decimal → Except FormulaError Decimal} (h : x.map Decimal.toRat = y.map Decimal.toRat)
    (hfg : ∀ a b, a.toRat = b.toRat → f a = g b) : x.bind f = y.bind g := by
  rcases map_toRat_eq_iff.mp h with ⟨error, rfl, rfl⟩ | ⟨a, b, rfl, rfl, hab⟩
  · rfl
  · exact hfg a b hab

/-- The sum of signed products has the value of the tree, up to the scale. -/
theorem SumTree.value_formula (s : SumTree) :
    s.formula.value.map Decimal.toRat = s.value.map Decimal.toRat := by
  induction s with
  | first p =>
      rw [value, ← p.value_product]
      exact Formula.value_single p.product
  | positive p =>
      rw [value, ← p.value_product]
      exact Formula.value_single p.product
  | negative p =>
      rw [value, ← p.value_negatedProduct]
      exact Formula.value_single p.negatedProduct
  | plus left p ih =>
      have hsame : (plus left p).formula.value = (plus left p).value := by
        show Formula.value ⟨left.firstProduct, left.laterProducts ++ [p.product]⟩ = _
        rw [Formula.value_append, p.value_product]
        refine map_toRat_bind_congr ih fun a b hab => ?_
        simp only [Decimal.add?, hab]
      rw [hsame]
  | minus left p ih =>
      have hsame : (minus left p).formula.value = (minus left p).value := by
        show Formula.value ⟨left.firstProduct, left.laterProducts ++ [p.negatedProduct]⟩ = _
        rw [Formula.value_append, p.value_negatedProduct]
        refine map_toRat_bind_congr ih fun a b hab => ?_
        -- a sum with the negated product is the difference
        cases p.value with
        | error e => rfl
        | ok v =>
            show orOverflow (a.add? v.neg) = orOverflow (b.sub? v)
            rw [Decimal.add?, Decimal.sub?, Decimal.toRat_neg, hab, sub_eq_add_neg]
      rw [hsame]

theorem evaluateTerms_toRat (s : SumTree) :
    (evaluateTerms s.terms).map Decimal.toRat = s.value.map Decimal.toRat := by
  rw [evaluateTerms, s.ofTerms?_terms]
  exact s.value_formula

/-! ## Errors and exact values -/

theorem orOverflow_ne_malformed (x : Option Decimal) : orOverflow x ≠ .error .malformed := by
  cases x <;> rintro ⟨⟩

theorem bind_ne_malformed {x : Except FormulaError Decimal}
    {f : Decimal → Except FormulaError Decimal} (hx : x ≠ .error .malformed)
    (hf : ∀ a, f a ≠ .error .malformed) : x.bind f ≠ .error .malformed := by
  cases x with
  | error e => exact hx
  | ok a => exact hf a

theorem ProductTree.value_ne_malformed (p : ProductTree) : p.value ≠ .error .malformed := by
  induction p with
  | number n => rintro ⟨⟩
  | times left n ih => exact bind_ne_malformed ih fun a => orOverflow_ne_malformed _
  | dividedBy left n ih =>
      refine bind_ne_malformed ih fun a => ?_
      split
      · rintro ⟨⟩
      · exact orOverflow_ne_malformed _

theorem SumTree.value_ne_malformed (s : SumTree) : s.value ≠ .error .malformed := by
  induction s with
  | first p => exact p.value_ne_malformed
  | positive p => exact p.value_ne_malformed
  | negative p =>
      rw [value]
      have hp := p.value_ne_malformed
      cases hvalue : p.value with
      | error e => rwa [hvalue] at hp
      | ok a => rintro ⟨⟩
  | plus left p ih =>
      refine bind_ne_malformed ih fun a => ?_
      exact bind_ne_malformed p.value_ne_malformed fun b => orOverflow_ne_malformed _
  | minus left p ih =>
      refine bind_ne_malformed ih fun a => ?_
      exact bind_ne_malformed p.value_ne_malformed fun b => orOverflow_ne_malformed _

/-- The written form of a tree is never malformed, whatever its arithmetic gives. -/
theorem evaluateTerms_ne_malformed (s : SumTree) :
    evaluateTerms s.terms ≠ .error .malformed := by
  intro hmalformed
  have hvalue := evaluateTerms_toRat s
  rw [hmalformed] at hvalue
  rcases map_toRat_eq_iff.mp hvalue with ⟨error, herror, hs⟩ | ⟨a, b, ha, -⟩
  · cases herror
    exact s.value_ne_malformed hs
  · cases ha

/-- Terms are malformed exactly when they are no formula. -/
theorem evaluateTerms_eq_malformed_iff {terms : List Term} :
    evaluateTerms terms = .error .malformed ↔ ¬IsFormula terms := by
  constructor
  · intro hmalformed hformula
    obtain ⟨s, rfl⟩ := isFormula_iff.mp hformula
    exact evaluateTerms_ne_malformed s hmalformed
  · intro hnot
    rw [evaluateTerms]
    cases hread : Formula.ofTerms? terms with
    | none => rfl
    | some f => exact absurd (Formula.isFormula_of_ofTerms? hread) hnot

/-- Rounding a value that a decimal has gives a decimal of that value. -/
theorem Decimal.Represents.orOverflow {q : Rat} (h : Represents q) :
    ∃ d, orOverflow (nearest? q) = .ok d ∧ d.toRat = q := by
  obtain ⟨d, rfl⟩ := h
  obtain ⟨d', hd', hsame⟩ := nearest?_toRat d
  exact ⟨d', by rw [hd']; rfl, hsame⟩

theorem ProductTree.value_exact {p : ProductTree} (h : p.IsExact) :
    ∃ d, p.value = .ok d ∧ d.toRat = p.exact := by
  induction p with
  | number n => exact ⟨n, rfl, rfl⟩
  | times left n ih =>
      obtain ⟨a, ha, hsame⟩ := ih h.1
      rw [value, ha, exact, ← hsame]
      exact Decimal.Represents.orOverflow (by rw [hsame]; exact h.2)
  | dividedBy left n ih =>
      obtain ⟨a, ha, hsame⟩ := ih h.1
      have hzero : n.isZero = false := by
        rw [Bool.eq_false_iff]
        exact fun hn => h.2.1 (Decimal.isZero_iff.mp hn)
      rw [value, ha, exact, ← hsame, hzero]
      exact Decimal.Represents.orOverflow (by rw [hsame]; exact h.2.2)

theorem SumTree.value_exact {s : SumTree} (h : s.IsExact) :
    ∃ d, s.value = .ok d ∧ d.toRat = s.exact := by
  induction s with
  | first p => exact ProductTree.value_exact h
  | positive p => exact ProductTree.value_exact h
  | negative p =>
      obtain ⟨a, ha, hsame⟩ := ProductTree.value_exact h
      exact ⟨a.neg, by rw [value, ha]; rfl, by rw [Decimal.toRat_neg, hsame]; rfl⟩
  | plus left p ih =>
      obtain ⟨a, ha, hleft⟩ := ih h.1
      obtain ⟨b, hb, hright⟩ := ProductTree.value_exact h.2.1
      rw [value, ha, hb, exact, ← hleft, ← hright]
      exact Decimal.Represents.orOverflow (by rw [hleft, hright]; exact h.2.2)
  | minus left p ih =>
      obtain ⟨a, ha, hleft⟩ := ih h.1
      obtain ⟨b, hb, hright⟩ := ProductTree.value_exact h.2.1
      rw [value, ha, hb, exact, ← hleft, ← hright]
      exact Decimal.Represents.orOverflow (by rw [hleft, hright]; exact h.2.2)

theorem map_normalize_eq_of_map_toRat_eq {x y : Except FormulaError Decimal}
    (h : x.map Decimal.toRat = y.map Decimal.toRat) :
    x.map Decimal.normalize = y.map Decimal.normalize := by
  rcases map_toRat_eq_iff.mp h with ⟨error, rfl, rfl⟩ | ⟨a, b, rfl, rfl, hab⟩
  · rfl
  · show Except.ok a.normalize = Except.ok b.normalize
    rw [Decimal.normalize_eq_of_toRat_eq hab]

/-- Where no operation needs rounding, the value is exact. -/
theorem evaluateTerms_exact {s : SumTree} (hexact : s.IsExact) :
    ∃ d, evaluateTerms s.terms = .ok d ∧ d.toRat = s.exact := by
  obtain ⟨d, hd, hsame⟩ := SumTree.value_exact hexact
  rcases map_toRat_eq_iff.mp (evaluateTerms_toRat s) with ⟨error, -, hy⟩ | ⟨a, b, hx, hy, hab⟩
  · rw [hd] at hy
    cases hy
  · rw [hd, Except.ok.injEq] at hy
    subst hy
    exact ⟨a, hx, hab.trans hsame⟩

/-- **Folding a formula is conventional arithmetic.** Terms are malformed exactly when they
are not of the form `[+|-] n (op n)*`, whatever their arithmetic would give. Formulas are the
written forms of trees, and for each tree the result is the error or, in normal form, the
value of the tree; where no operation of the tree needs rounding, it is the exact value. -/
theorem evaluateTerms_eq_value (terms : List Term) :
    (evaluateTerms terms = .error .malformed ↔ ¬IsFormula terms) ∧
    (IsFormula terms ↔ ∃ s : SumTree, s.terms = terms) ∧
    ∀ s : SumTree, s.terms = terms →
      (evaluateTerms terms).map Decimal.normalize = s.value.map Decimal.normalize ∧
      (s.IsExact → ∃ d, evaluateTerms terms = .ok d ∧ d.toRat = s.exact) := by
  refine ⟨evaluateTerms_eq_malformed_iff, isFormula_iff, ?_⟩
  rintro s rfl
  refine ⟨map_normalize_eq_of_map_toRat_eq (evaluateTerms_toRat s), ?_⟩
  intro hexact
  exact evaluateTerms_exact hexact

/-- `-2.5*4/8+0.75-3*0.5` -/
def signedSum : SumTree :=
  .minus (.plus
      (.negative (.dividedBy (.times (.number ⟨25, 1, by decide, by decide⟩)
        ⟨4, 0, by decide, Nat.zero_le maxScale⟩) ⟨8, 0, by decide, Nat.zero_le maxScale⟩))
      (.number ⟨75, 2, by decide, by decide⟩))
    (.times (.number ⟨3, 0, by decide, Nat.zero_le maxScale⟩) ⟨5, 1, by decide, by decide⟩)

theorem signedSum_isExact : signedSum.IsExact := by
  have hten : Decimal.Represents 10 := ⟨⟨10, 0, by decide, by decide⟩, by norm_num [Decimal.toRat]⟩
  have hquotient : Decimal.Represents (5 / 4) :=
    ⟨⟨125, 2, by decide, by decide⟩, by norm_num [Decimal.toRat]⟩
  have hsum : Decimal.Represents (-(1 / 2)) :=
    ⟨⟨-5, 1, by decide, by decide⟩, by norm_num [Decimal.toRat]⟩
  have hproduct : Decimal.Represents (3 / 2) :=
    ⟨⟨15, 1, by decide, by decide⟩, by norm_num [Decimal.toRat]⟩
  have hdifference : Decimal.Represents (-2) :=
    ⟨⟨-2, 0, by decide, by decide⟩, by norm_num [Decimal.toRat]⟩
  norm_num [signedSum, SumTree.IsExact, ProductTree.IsExact, SumTree.exact, ProductTree.exact,
    Decimal.toRat, hten, hquotient, hsum, hproduct, hdifference]

theorem evaluateTerms_signedSum :
    signedSum.IsExact ∧
      (evaluateTerms signedSum.terms).map Decimal.normalize =
        signedSum.value.map Decimal.normalize ∧
      ∃ d, evaluateTerms signedSum.terms = .ok d ∧ d.toRat = -2 := by
  have hvalue : signedSum.exact = -2 := by
    norm_num [signedSum, SumTree.exact, ProductTree.exact, Decimal.toRat]
  obtain ⟨hsame, hexact⟩ := (evaluateTerms_eq_value signedSum.terms).2.2 signedSum rfl
  rw [hvalue] at hexact
  exact ⟨signedSum_isExact, hsame, hexact signedSum_isExact⟩

end DesignTokens
