import DesignTokens.Evaluation.Error
import DesignTokens.Value

set_option autoImplicit false

/-! # Resolved parts

What the atoms of an expression become once every reference is replaced by its value.
`assemble` makes the value of an expression out of its parts: a number if the expression
is numeric and no part is text, and otherwise the texts of the parts, joined.
-/

namespace DesignTokens

/-- An atom with its reference, if it is one, resolved. -/
inductive Part
  | operator (op : Operator)
  | number (value : Decimal) (unit : Option String)
  | text (content : String)
  deriving DecidableEq, Repr

namespace Part

/-- The part a value becomes where it is referred to. -/
def ofEvaluated : Evaluated → Part
  | .number value unit => number value unit
  | .text content => text content

/-- A unit, unless it is empty. -/
def unitOf (unit : String) : Option String := if unit.isEmpty then none else some unit

/-- The text of a part; numbers are written without zeros at their end. -/
def written : Part → String
  | operator op => op.text
  | number value _ => value.normalize.text
  | text content => content

/-- The term of a part that belongs to a formula. -/
def term? : Part → Option Term
  | operator op => some (.operator op)
  | number value _ => some (.number value)
  | text _ => none

/-- The unit of a part. -/
def unit? : Part → Option String
  | number _ unit => unit
  | _ => none

/-- Whether a part is text. -/
def isText : Part → Bool
  | text _ => true
  | _ => false

end Part

/-- The value of an expression with these parts, `numeric` saying whether its own atoms make
a formula. The unit of a number is the first unit among its parts. -/
def assemble (numeric : Bool) (parts : List Part) : Except EvalError Evaluated :=
  let written := String.join (parts.map Part.written)
  if numeric && !parts.any Part.isText then
    match evaluateTerms (parts.filterMap Part.term?) with
    | .ok value => .ok (.number value.normalize (parts.findSome? Part.unit?))
    | .error error => .error (.ofFormula written error)
  else
    .ok (.text written)

end DesignTokens
