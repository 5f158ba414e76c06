import DesignTokens.Decimal.Rounding
import DesignTokens.Expression.Operator

set_option autoImplicit false

/-! # Formulas

A formula is a number with an optional sign, followed by operators with a number each. It
is read as a sum of products: a sign or a `+` or `-` starts a product, `*` and `/` continue
it. `Formula.ofTerms?` says which sequences of operators and numbers are formulas, and
`Formula.value` computes the products and their sum from left to right, rounding after
every operation.
-/

namespace DesignTokens

/-- An operator or a number of a formula. -/
inductive Term
  | operator (op : Operator)
  | number (value : Decimal)
  deriving DecidableEq, Repr

/-- Why a sequence of terms has no value. -/
inductive FormulaError
  | malformed
  | divisionByZero
  | overflow
  deriving DecidableEq, Repr

/-- A further factor of a product. -/
inductive Factor
  | times (value : Decimal)
  | over (value : Decimal)
  deriving DecidableEq, Repr

/-- A product whose sign belongs to its first factor. -/
structure Product where
  first : Decimal
  factors : List Factor
  deriving DecidableEq, Repr

/-- A sum of products, of which there is at least one. -/
structure Formula where
  first : Product
  rest : List Product
  deriving DecidableEq, Repr

/-- The result of an operation that may overflow. -/
def orOverflow : Option Decimal → Except FormulaError Decimal
  | some value => .ok value
  | none => .error .overflow

namespace Product

/-- The product so far, multiplied or divided by one more factor. -/
def apply (product : Decimal) : Factor → Except FormulaError Decimal
  | .times n => orOverflow (product.mul? n)
  | .over n => if n.isZero then .error .divisionByZero else orOverflow (product.div? n)

/-- The value of a product, computed from left to right. -/
def value (p : Product) : Except FormulaError Decimal := p.factors.foldlM apply p.first

end Product

namespace Formula

/-- The products of a formula. -/
def products (f : Formula) : List Product := f.first :: f.rest

/-- The value of a formula: its products, added from left to right. -/
def value (f : Formula) : Except FormulaError Decimal :=
  f.products.foldlM (fun total p => do orOverflow (total.add? (← p.value))) .zero

/-- What follows the first number of a formula: the factors that still belong to its
product, and the products after it. -/
def restOfTerms? : List Term → Option (List Factor × List Product)
  | [] => some ([], [])
  | .operator op :: .number n :: terms => do
    let (factors, products) ← restOfTerms? terms
    match op with
    | .multiply => some (.times n :: factors, products)
    | .divide => some (.over n :: factors, products)
    | .add => some ([], ⟨n, factors⟩ :: products)
    | .subtract => some ([], ⟨n.neg, factors⟩ :: products)
  | _ => none

/-- The formula that starts with the given number. -/
def startingWith? (n : Decimal) (terms : List Term) : Option Formula := do
  let (factors, products) ← restOfTerms? terms
  return ⟨⟨n, factors⟩, products⟩

/-- Reads a sequence of operators and numbers as a formula. -/
def ofTerms? : List Term → Option Formula
  | .number n :: terms => startingWith? n terms
  | .operator .add :: .number n :: terms => startingWith? n terms
  | .operator .subtract :: .number n :: terms => startingWith? n.neg terms
  | _ => none

end Formula

/-- The value of a sequence of operators and numbers. -/
def evaluateTerms (terms : List Term) : Except FormulaError Decimal :=
  match Formula.ofTerms? terms with
  | some f => f.value
  | none => .error .malformed

end DesignTokens
