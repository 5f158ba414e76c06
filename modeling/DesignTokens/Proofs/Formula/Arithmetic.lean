import DesignTokens.Formula
import DesignTokens.Proofs.Decimal.Normalize
import Mathlib.Data.List.Induction

set_option autoImplicit false

/-! # Conventional arithmetic

The second side of formulas: syntax trees of sums and products (`SumTree`, `ProductTree`)
with their written form, their value and their exact value. `*` and `/` bind tighter than
`+` and `-` because products are the leaves of sums, and both associate to the left because
a tree grows to the right only. A value is computed from the leaves, the left operand first,
and every operation rounds or overflows on its own; `minus` is a difference, and a leading
sign negates the first product.

`IsFormula` is the shape of a written formula, `[+|-] n (op n)*`; `isFormula_iff` says that
these are the written forms of trees.
-/

namespace DesignTokens

namespace Decimal

/-- The rounded difference, unless it overflows. -/
def sub? (a b : Decimal) : Option Decimal := nearest? (a.toRat - b.toRat)

/-- A rational that some decimal is equal to. -/
def Represents (q : Rat) : Prop := ∃ d : Decimal, d.toRat = q

end Decimal

/-! ## Trees -/

/-- Numbers joined by `*` and `/`. -/
inductive ProductTree
  | number (n : Decimal)
  | times (left : ProductTree) (n : Decimal)
  | dividedBy (left : ProductTree) (n : Decimal)

/-- Products joined by `+` and `-`, the first with an optional sign. -/
inductive SumTree
  | first (p : ProductTree)
  | positive (p : ProductTree)
  | negative (p : ProductTree)
  | plus (left : SumTree) (p : ProductTree)
  | minus (left : SumTree) (p : ProductTree)

namespace ProductTree

/-- The written form of a product. -/
def terms : ProductTree → List Term
  | number n => [.number n]
  | times left n => left.terms ++ [.operator .multiply, .number n]
  | dividedBy left n => left.terms ++ [.operator .divide, .number n]

/-- The value of a product, rounded after each operation. -/
def value : ProductTree → Except FormulaError Decimal
  | number n => .ok n
  | times left n => left.value.bind fun a => orOverflow (a.mul? n)
  | dividedBy left n =>
    left.value.bind fun a => if n.isZero then .error .divisionByZero else orOverflow (a.div? n)

/-- The rational that a product denotes. -/
def exact : ProductTree → Rat
  | number n => n.toRat
  | times left n => left.exact * n.toRat
  | dividedBy left n => left.exact / n.toRat

/-- No operation of a product needs rounding. -/
def IsExact : ProductTree → Prop
  | number _ => True
  | times left n => left.IsExact ∧ Decimal.Represents (left.exact * n.toRat)
  | dividedBy left n => left.IsExact ∧ n.toRat ≠ 0 ∧ Decimal.Represents (left.exact / n.toRat)

end ProductTree

namespace SumTree

/-- The written form of a sum. -/
def terms : SumTree → List Term
  | first p => p.terms
  | positive p => .operator .add :: p.terms
  | negative p => .operator .subtract :: p.terms
  | plus left p => left.terms ++ .operator .add :: p.terms
  | minus left p => left.terms ++ .operator .subtract :: p.terms

/-- The value of a sum, rounded after each operation. -/
def value : SumTree → Except FormulaError Decimal
  | first p => p.value
  | positive p => p.value
  | negative p => p.value.map Decimal.neg
  | plus left p => left.value.bind fun a => p.value.bind fun b => orOverflow (a.add? b)
  | minus left p => left.value.bind fun a => p.value.bind fun b => orOverflow (a.sub? b)

/-- The rational that a sum denotes. -/
def exact : SumTree → Rat
  | first p => p.exact
  | positive p => p.exact
  | negative p => -p.exact
  | plus left p => left.exact + p.exact
  | minus left p => left.exact - p.exact

/-- No operation of a sum or of its products needs rounding. -/
def IsExact : SumTree → Prop
  | first p => p.IsExact
  | positive p => p.IsExact
  | negative p => p.IsExact
  | plus left p =>
    left.IsExact ∧ p.IsExact ∧ Decimal.Represents (left.exact + p.exact)
  | minus left p =>
    left.IsExact ∧ p.IsExact ∧ Decimal.Represents (left.exact - p.exact)

end SumTree

/-! ## Written formulas -/

/-- An operator and the number after it. -/
def pairTerms (pair : Operator × Decimal) : List Term := [.operator pair.1, .number pair.2]

/-- What may stand before the first number. -/
def signTerms : List (List Term) := [[], [.operator .add], [.operator .subtract]]

/-- The terms are an optional sign, a number, and operators with a number each. -/
def IsFormula (terms : List Term) : Prop :=
  ∃ sign ∈ signTerms, ∃ (n : Decimal) (pairs : List (Operator × Decimal)),
    terms = sign ++ .number n :: pairs.flatMap pairTerms

theorem IsFormula.append {terms : List Term} (h : IsFormula terms) (op : Operator)
    (n : Decimal) : IsFormula (terms ++ [.operator op, .number n]) := by
  obtain ⟨sign, hsign, m, pairs, rfl⟩ := h
  refine ⟨sign, hsign, m, pairs ++ [(op, n)], ?_⟩
  simp [pairTerms]

theorem ProductTree.isFormula_append {terms : List Term}
    (hfirst : ∀ n, IsFormula (terms ++ [.number n])) (p : ProductTree) :
    IsFormula (terms ++ p.terms) := by
  induction p with
  | number n => exact hfirst n
  | times left n ih =>
      rw [ProductTree.terms, ← List.append_assoc]
      exact ih.append .multiply n
  | dividedBy left n ih =>
      rw [ProductTree.terms, ← List.append_assoc]
      exact ih.append .divide n

/-- The written form of a sum is a formula. -/
theorem SumTree.isFormula_terms (s : SumTree) : IsFormula s.terms := by
  have hsign : ∀ sign ∈ signTerms, ∀ n, IsFormula (sign ++ [.number n]) := fun sign hsign n =>
    ⟨sign, hsign, n, [], rfl⟩
  have hnext : ∀ op (left : SumTree), IsFormula left.terms → ∀ n,
      IsFormula ((left.terms ++ [.operator op]) ++ [.number n]) := by
    intro op left hleft n
    rw [List.append_assoc]
    exact hleft.append op n
  induction s with
  | first p => exact p.isFormula_append (hsign [] (by simp [signTerms]))
  | positive p => exact p.isFormula_append (hsign [.operator .add] (by simp [signTerms]))
  | negative p => exact p.isFormula_append (hsign [.operator .subtract] (by simp [signTerms]))
  | plus left p ih =>
      have hterms := p.isFormula_append (hnext .add left ih)
      rwa [List.append_assoc] at hterms
  | minus left p ih =>
      have hterms := p.isFormula_append (hnext .subtract left ih)
      rwa [List.append_assoc] at hterms

/-- A sum with its last product changed. -/
def SumTree.mapLast (f : ProductTree → ProductTree) : SumTree → SumTree
  | first p => first (f p)
  | positive p => positive (f p)
  | negative p => negative (f p)
  | plus left p => plus left (f p)
  | minus left p => minus left (f p)

theorem SumTree.terms_mapLast {f : ProductTree → ProductTree} {terms : List Term}
    (hf : ∀ p, (f p).terms = p.terms ++ terms) (s : SumTree) :
    (s.mapLast f).terms = s.terms ++ terms := by
  cases s <;> simp [mapLast, SumTree.terms, hf]

/-- The sum whose written form goes on with an operator and a number. -/
def SumTree.extend (s : SumTree) : Operator → Decimal → SumTree
  | .add, n => s.plus (.number n)
  | .subtract, n => s.minus (.number n)
  | .multiply, n => s.mapLast (.times · n)
  | .divide, n => s.mapLast (.dividedBy · n)

theorem SumTree.terms_extend (s : SumTree) (op : Operator) (n : Decimal) :
    (s.extend op n).terms = s.terms ++ [.operator op, .number n] := by
  cases op with
  | add => rfl
  | subtract => rfl
  | multiply => exact terms_mapLast (fun _ => rfl) s
  | divide => exact terms_mapLast (fun _ => rfl) s

/-- Formulas are the written forms of sums. -/
theorem isFormula_iff {terms : List Term} : IsFormula terms ↔ ∃ s : SumTree, s.terms = terms := by
  constructor
  · rintro ⟨sign, hsign, n, pairs, rfl⟩
    induction pairs using List.reverseRecOn with
    | nil =>
        simp only [signTerms, List.mem_cons, List.not_mem_nil, or_false] at hsign
        rcases hsign with rfl | rfl | rfl
        · exact ⟨.first (.number n), rfl⟩
        · exact ⟨.positive (.number n), rfl⟩
        · exact ⟨.negative (.number n), rfl⟩
    | append_singleton pairs pair ih =>
        obtain ⟨s, hs⟩ := ih
        refine ⟨s.extend pair.1 pair.2, ?_⟩
        rw [SumTree.terms_extend, hs]
        simp [pairTerms]
  · rintro ⟨s, rfl⟩
    exact s.isFormula_terms

end DesignTokens
