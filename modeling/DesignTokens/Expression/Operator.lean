set_option autoImplicit false

/-! # Arithmetic operators

An operator stands directly before the term it applies to. Before the first term of a
value, `+` and `-` are signs.
-/

namespace DesignTokens

/-- The four arithmetic operators. -/
inductive Operator
  | add
  | subtract
  | multiply
  | divide
  deriving DecidableEq, Repr

namespace Operator

/-- The operator a character stands for. -/
def ofChar? : Char → Option Operator
  | '+' => some add
  | '-' => some subtract
  | '*' => some multiply
  | '/' => some divide
  | _ => none

/-- The character of an operator. -/
def toChar : Operator → Char
  | add => '+'
  | subtract => '-'
  | multiply => '*'
  | divide => '/'

/-- `*` and `/` bind tighter than `+` and `-`. -/
def isMultiplicative : Operator → Bool
  | multiply => true
  | divide => true
  | add => false
  | subtract => false

/-- The text of an operator. -/
def text (op : Operator) : String := String.singleton op.toChar

@[simp] theorem ofChar?_toChar (op : Operator) : ofChar? op.toChar = some op := by
  cases op <;> rfl

theorem toChar_of_ofChar? {c : Char} {op : Operator} (h : ofChar? c = some op) :
    op.toChar = c := by
  unfold ofChar? at h
  split at h <;> simp_all <;> subst h <;> rfl

end Operator

end DesignTokens
