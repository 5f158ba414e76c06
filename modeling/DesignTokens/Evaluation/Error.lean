import DesignTokens.Expression.Basic
import DesignTokens.Formula

set_option autoImplicit false

/-! # Evaluation errors

Why an expression has no value. Errors of a formula carry its text, with references
already replaced by their values.
-/

namespace DesignTokens

/-- Why an expression has no value, or a lookup table cannot be built. -/
inductive EvalError
  /-- A raw value that a reference leads to is not an expression. -/
  | unreadable (cause : ParseError)
  /-- A reference that nothing answers. -/
  | referenceNotFound (reference : String)
  /-- A chain of references that came back to itself or grew too long. -/
  | referenceCycle (chain : List String)
  | malformedFormula (formula : String)
  | divisionByZero (formula : String)
  | overflow (formula : String)
  deriving DecidableEq, Repr

namespace EvalError

/-- The error of a formula with this text. -/
def ofFormula (formula : String) : FormulaError → EvalError
  | .malformed => malformedFormula formula
  | .divisionByZero => divisionByZero formula
  | .overflow => overflow formula

/-- The explanation of an evaluation error. -/
def message : EvalError → String
  | unreadable cause => "Syntax error: " ++ cause.message
  | referenceNotFound reference =>
    "Value for reference " ++ reference ++ " not found in the token tree"
  | referenceCycle chain => "Reference cycle: " ++ " -> ".intercalate chain
  | malformedFormula formula => "Malformed formula: '" ++ formula ++ "'"
  | divisionByZero formula => "Division by zero in '" ++ formula ++ "'"
  | overflow formula => "Arithmetic overflow in '" ++ formula ++ "'"

end EvalError

end DesignTokens
