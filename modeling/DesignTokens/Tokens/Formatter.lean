import DesignTokens.Evaluation.Evaluator
import DesignTokens.Text.Kebab
import DesignTokens.Tokens.Error
import DesignTokens.Tree.Values

set_option autoImplicit false

/-! # Formatters

A formatter turns the expressions found for a key into one text. It is registered for one
type of tokens and may ask for everything in a `TokenView`, also for the formatted values
of other keys.
-/

namespace DesignTokens

/-- What a formatter may ask of the tokens it belongs to. -/
structure TokenView where
  tree : TokenTree
  expressions : List TokenExpression
  table : LookupTable
  /-- The formatted value of a key. -/
  valueFor : String → Traced TokenError String

/-- A way to write the expressions found for a key. -/
structure Formatter where
  /-- The type of tokens it is for. -/
  tokenType : String
  format : TokenView → List TokenExpression → Traced TokenError String

/-- The type of the formatter used for tokens without a formatter of their own. -/
def defaultType : String := "default"

/-- The text of a length: a number without a unit counts pixels. -/
def Evaluated.lengthText : Evaluated → String
  | .number value none => value.text ++ "px"
  | value => value.display

namespace Formatter

/-- Evaluates one of the expressions found. -/
def evaluateFor (view : TokenView) (e : TokenExpression) : Traced TokenError Evaluated :=
  (evaluate view.table e.toExpression).mapError .evaluation

/-- Writes the first expression as a length. -/
def single : Formatter where
  tokenType := defaultType
  format
    | _, [] => .fail (.notFound "")
    | view, e :: _ => do return (← evaluateFor view e).lengthText

/-- One declaration for the member of a composite token. -/
def declaration (view : TokenView) (e : TokenExpression) : Traced TokenError String := do
  let value ← evaluateFor view e
  return kebab (e.member.getD "") ++ ": " ++ value.display ++ ";"

/-- Writes the expressions as declarations on one line. -/
def declarations (tokenType : String) : Formatter where
  tokenType := tokenType
  format view found := do
    return " ".intercalate (← found.mapM (declaration view))

/-- Writes the type and, in angle brackets, the value of another key, whatever was found. -/
def quoting (tokenType key : String) : Formatter where
  tokenType := tokenType
  format view _ := do return tokenType ++ "<" ++ (← view.valueFor key) ++ ">"

end Formatter

end DesignTokens
