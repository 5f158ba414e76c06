set_option autoImplicit false

/-! # Style sheets

A style sheet declares variables in the rule of the root element, and has one rule for each
class. `Stylesheet.text` writes it as

    :root {
        --spacing-sm: 4px;
    }

    .heading {
        font-size: 16px;
        font-weight: bold;
    }
-/

namespace DesignTokens

/-- A property and its value. -/
structure Declaration where
  property : String
  value : String
  deriving DecidableEq, Repr

/-- The declarations of a class. -/
structure Rule where
  className : String
  declarations : List Declaration
  deriving DecidableEq, Repr

/-- Properties of the root element, the variables, without their dashes, and rules. -/
structure Stylesheet where
  properties : List Declaration
  rules : List Rule
  deriving DecidableEq, Repr

/-- Adds a declaration to the first rule of a class, or to a new rule after the others. -/
def Rule.addTo (className : String) (declaration : Declaration) : List Rule → List Rule
  | [] => [⟨className, [declaration]⟩]
  | rule :: rules =>
    if rule.className = className then
      { rule with declarations := rule.declarations ++ [declaration] } :: rules
    else
      rule :: addTo className declaration rules

namespace Stylesheet

/-- The style sheet without declarations. -/
def empty : Stylesheet := ⟨[], []⟩

/-- Declares one more variable. -/
def addVariable (sheet : Stylesheet) (declaration : Declaration) : Stylesheet :=
  { sheet with properties := sheet.properties ++ [declaration] }

/-- Adds a declaration to a class. -/
def addMember (sheet : Stylesheet) (className : String) (declaration : Declaration) :
    Stylesheet :=
  { sheet with rules := Rule.addTo className declaration sheet.rules }

/-- The line of a declaration; `mark` stands in front of the property. -/
def line (mark : String) (declaration : Declaration) : String :=
  "    " ++ mark ++ declaration.property ++ ": " ++ declaration.value ++ ";\n"

/-- The text of a rule, after an empty line. -/
def ruleText (rule : Rule) : String :=
  "\n." ++ rule.className ++ " \x7b\n" ++ String.join (rule.declarations.map (line "")) ++ "\x7d\n"

/-- The text of a style sheet. -/
def text (sheet : Stylesheet) : String :=
  ":root \x7b\n" ++ String.join (sheet.properties.map (line "--")) ++ "\x7d\n" ++
    String.join (sheet.rules.map ruleText)

end Stylesheet

end DesignTokens
