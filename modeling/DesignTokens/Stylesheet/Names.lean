import DesignTokens.Text.Kebab
import DesignTokens.Tree.Path

set_option autoImplicit false

/-! # Names in a style sheet

The names of custom properties and classes, made from the paths of values. A scope is a
word in front of every name of a kind: with the scope `ds`, the variable `spacing-sm` is
`ds-spacing-sm`.
-/

namespace DesignTokens

/-- A name with its scope in front; the empty scope counts as none. -/
def scopedName (scope : Option String) (name : String) : String :=
  match scope with
  | some word => if word.isEmpty then name else word ++ "-" ++ name
  | none => name

/-- A path without the last part, if that is `value`. -/
def withoutValue (path : List Char) : List Char :=
  let ending := ".value".toList
  if ending.isSuffixOf path then path.take (path.length - ending.length) else path

/-- The name of the custom property for the value at a path: dashes for points, and kebab
case. -/
def variableName (scope : Option String) (path : String) : String :=
  let dashed := (withoutValue path.toList).map fun c => if c = '.' then '-' else c
  scopedName scope (kebab (String.ofList dashed))

/-- The name of the class for the member at a path: all but the last two parts of the path,
with dashes between them. -/
def className (scope : Option String) (path : String) : String :=
  let parts := segments path
  scopedName scope ("-".intercalate (parts.take (parts.length - 2)))

end DesignTokens
