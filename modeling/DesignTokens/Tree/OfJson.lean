import DesignTokens.Json.Parser
import DesignTokens.Traced
import DesignTokens.Tree.Basic

set_option autoImplicit false

/-! # Token trees from documents

A document is an object of nested groups. An object with a `type` that is a text, and not
the empty one, is a token; any other object in a group is a group, and what is not an
object is skipped. The value of a token is a text, a number or a truth value, or an object
of such members.
-/

namespace DesignTokens

/-- Why a text is not a token tree. -/
inductive TreeError
  | malformedJson
  /-- The document is not an object. -/
  | notAnObject
  /-- The token at a path has no value, or the value `null`. -/
  | missingValue (path : String)
  /-- The value or member at a path is not of a kind a token may have. -/
  | invalidValue (path : String)
  deriving DecidableEq, Repr

/-- The explanation of a tree error. -/
def TreeError.message : TreeError → String
  | malformedJson => "Invalid JSON: the text is not a JSON document"
  | notAnObject => "Token tree must be a JSON object"
  | missingValue path => "Token at '" ++ path ++ "' has a type but no value"
  | invalidValue path =>
    "Token at '" ++ path ++
      "' has an unsupported value (expected a string, number, boolean or flat object)"

/-- The text of a JSON value that a token may have. -/
def Json.scalarText? : Json → Option String
  | .text value => some value
  | .number value => some value.text
  | .bool value => some (if value then "true" else "false")
  | _ => none

namespace Token

/-- The type of the token that an object with these members is, if it is one. -/
def typeOf? (members : List (String × Json)) : Option String :=
  match members.lookup "type" with
  | some (.text tokenType) => if tokenType.isEmpty then none else some tokenType
  | _ => none

/-- A member of a composite token at a path. -/
def memberOfJson (path : String) (member : String × Json) :
    Except TreeError (String × String) :=
  match member.2.scalarText? with
  | some text => .ok (member.1, text)
  | none => .error (.invalidValue (path ++ ".value." ++ member.1))

/-- The value of the token at a path, given what its object holds under `value`. -/
def valueOfJson (path : String) : Option Json → Except TreeError RawValue
  | none => .error (.missingValue path)
  | some .null => .error (.missingValue path)
  | some (.object members) => do return .composite (← members.mapM (memberOfJson path))
  | some value =>
    match value.scalarText? with
    | some text => .ok (.scalar text)
    | none => .error (.invalidValue path)

/-- The token at a path, of a type and with the other members of its object. -/
def ofMembers (path tokenType : String) (members : List (String × Json)) :
    Except TreeError Token := do
  return ⟨← valueOfJson path (members.lookup "value"), tokenType⟩

end Token

namespace TokenTree

mutual

/-- What the entry of a group at a path holds; nothing if it is skipped. -/
def nodeOfJson (path : String) : Json → Traced TreeError (Option TokenNode)
  | .object members =>
    match Token.typeOf? members with
    | some tokenType => do
      let token ← .ofExcept (Token.ofMembers path tokenType members)
      return some (.token token)
    | none => do return some (.group (← ofMembers path members))
  | value => do
    .report (.skippedEntry path value.compact)
    return none

/-- The group at a path, with the members of its object. -/
def ofMembers (parent : String) : List (String × Json) → Traced TreeError TokenTree
  | [] => pure .nil
  | (key, value) :: rest => do
    let node ← nodeOfJson (childPath parent key) value
    let rest ← ofMembers parent rest
    return match node with
      | some node => cons key node rest
      | none => rest

end

/-- The tree of a document. -/
def ofJson : Json → Traced TreeError TokenTree
  | .object members => ofMembers "" members
  | _ => .fail .notAnObject

/-- The tree of the text of a document. -/
def ofText (text : String) : Traced TreeError TokenTree :=
  match Json.parse? text with
  | some document => ofJson document
  | none => .fail .malformedJson

end TokenTree

end DesignTokens
