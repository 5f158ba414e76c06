import DesignTokens.Stylesheet.Basic
import DesignTokens.Stylesheet.Names
import DesignTokens.Tokens.Basic

set_option autoImplicit false

/-! # The style sheet of a token set

Every simple token becomes a variable, and the members of composite tokens become the
declarations of classes, all in document order.
-/

namespace DesignTokens

/-- How a style sheet is generated. -/
structure StylesheetOptions where
  fileName : String := "design-tokens.css"
  /-- The word in front of every variable. -/
  variableScope : Option String := none
  /-- The word in front of every class. -/
  classScope : Option String := none
  deriving DecidableEq, Repr

/-- A token expression with its value, as text. -/
structure ResolvedExpression where
  expression : TokenExpression
  value : String
  deriving DecidableEq, Repr

namespace TokenSet

/-- The value of an expression of a token set. -/
def resolve (tokens : TokenSet) (e : TokenExpression) : Traced EvalError ResolvedExpression := do
  return ⟨e, (← evaluate tokens.table e.toExpression).display⟩

/-- All expressions with their values, in document order. -/
def resolved (tokens : TokenSet) : Traced EvalError (List ResolvedExpression) :=
  tokens.expressions.mapM tokens.resolve

end TokenSet

namespace Stylesheet

/-- Declares the value of one expression. -/
def add (options : StylesheetOptions) (sheet : Stylesheet) (resolved : ResolvedExpression) :
    Stylesheet :=
  let path := resolved.expression.path
  match resolved.expression.member with
  | none => sheet.addVariable ⟨variableName options.variableScope path, resolved.value⟩
  | some key => sheet.addMember (className options.classScope path) ⟨kebab key, resolved.value⟩

/-- The style sheet of a token set; it fails with the error of the first expression that
has no value. -/
def ofTokens (options : StylesheetOptions) (tokens : TokenSet) : Traced EvalError Stylesheet := do
  let sheet := (← tokens.resolved).foldl (add options) empty
  .report (.generatedCss sheet.properties.length sheet.rules.length)
  return sheet

end Stylesheet

end DesignTokens
