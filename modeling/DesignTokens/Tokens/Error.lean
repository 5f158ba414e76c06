import DesignTokens.Evaluation.Error
import DesignTokens.Tree.OfJson

set_option autoImplicit false

/-! # Errors of a token set

Why tokens cannot be loaded, or a key has no formatted value.
-/

namespace DesignTokens

/-- Why tokens cannot be loaded, or a key has no formatted value. -/
inductive TokenError
  | tree (cause : TreeError)
  /-- A value of the tree is not an expression. -/
  | unreadable (cause : ParseError)
  | evaluation (cause : EvalError)
  /-- No path starts with the key. -/
  | notFound (key : String)
  /-- The matches of the key have more than one type. -/
  | conflictingTypes (key : String) (types : List String)
  /-- The key has several matches, and only the formatter for single values applies. -/
  | ambiguousMatch (key : String) (count : Nat)
  /-- No formatter is registered for a type. -/
  | unknownFormatter (tokenType : String)
  /-- Formatters asked one another for values more deeply than `maxFormatterNesting`. No rule
  of token sets refuses a value with it: it stands for questions that never come to an end. -/
  | endlessFormatting (key : String)
  deriving DecidableEq, Repr

/-- The explanation of an error. -/
def TokenError.message : TokenError → String
  | tree cause => cause.message
  | unreadable cause => "Syntax error: " ++ cause.message
  | evaluation cause => "Evaluation error: " ++ cause.message
  | notFound key => "No matching expressions found for path " ++ key
  | conflictingTypes key types =>
    "Wrong path. For path " ++ key ++ " found expressions with different types: " ++
      ", ".intercalate types
  | ambiguousMatch key count =>
    "Found " ++ toString count ++ " expressions for path " ++ key ++
      " - to support multiple matching expressions register a parser for their type"
  | unknownFormatter tokenType => "Parser for type " ++ tokenType ++ " not found"
  | endlessFormatting key => "Formatting of path " ++ key ++ " does not end"

end DesignTokens
