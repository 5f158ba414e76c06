import DesignTokens.Stylesheet.OfTokens

set_option autoImplicit false

/-! # Platforms

A platform generates the files of one target format from a token set.
-/

namespace DesignTokens

/-- A generated file. -/
structure OutputFile where
  name : String
  content : String
  deriving DecidableEq, Repr

/-- A target format. -/
structure Platform where
  name : String
  run : TokenSet → Traced EvalError (List OutputFile)

namespace Platform

/-- One style sheet with all tokens. -/
def css (options : StylesheetOptions) : Platform where
  name := "css"
  run tokens := do
    let sheet ← Stylesheet.ofTokens options tokens
    return [⟨options.fileName, sheet.text⟩]

/-- The platform with a name. -/
def named? (options : StylesheetOptions) (name : String) : Option Platform :=
  if name = "css" then some (css options) else none

end Platform

end DesignTokens
