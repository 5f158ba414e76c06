import DesignTokens.Decimal.Basic

set_option autoImplicit false

/-! # Evaluated values

What an expression is worth: a number with an optional unit, or a text. A text never has a
unit.
-/

namespace DesignTokens

/-- The value of an expression. -/
inductive Evaluated
  | number (value : Decimal) (unit : Option String)
  | text (content : String)
  deriving DecidableEq, Repr

namespace Evaluated

/-- Whether a value is a number. -/
def isNumber : Evaluated → Bool
  | number _ _ => true
  | text _ => false

/-- The unit of a number, if it has one. -/
def unit? : Evaluated → Option String
  | number _ unit => unit
  | text _ => none

/-- The value without its unit. -/
def bareText : Evaluated → String
  | number value _ => value.text
  | text content => content

/-- The value, immediately followed by its unit: `8px`, `bold`. -/
def display (v : Evaluated) : String := v.bareText ++ v.unit?.getD ""

end Evaluated

end DesignTokens
