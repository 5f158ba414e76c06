import DesignTokens.Expression.Scan
import DesignTokens.Traced

set_option autoImplicit false

/-! # Expressions

An expression is a token value cut into atoms. `Expression.parse` strips the blanks of a
text and reads its atoms; the only texts it refuses are those with an opening parenthesis.
An expression is numeric when it has atoms and none of them is verbatim text.
`Expression.read` is `parse` with the warning about text that looks like a reference.
-/

namespace DesignTokens

/-- Why a text is not an expression. -/
inductive ParseError
  /-- The text holds an opening parenthesis. -/
  | parenthesis (text : String)
  deriving DecidableEq, Repr

/-- The explanation of a parse error. -/
def ParseError.message : ParseError → String
  | parenthesis text =>
    "Unsupported syntax in '" ++ text ++
      "': found '(' - function calls and nested expressions are not supported"

/-- A token value as a sequence of atoms. -/
structure Expression where
  /-- The text without blanks. -/
  source : String
  atoms : List Atom
  /-- Whether the value is a formula, as far as its own atoms tell. -/
  numeric : Bool
  deriving DecidableEq, Repr

namespace Expression

/-- The atoms of a text without blanks. -/
def atomsOf (source : List Char) : List Atom := (scan source).flatMap Piece.atoms

/-- Whether atoms make a formula: there are some, and none is verbatim text. -/
def isFormula (atoms : List Atom) : Bool := !atoms.isEmpty && !atoms.any Atom.isVerbatim

/-- Reads an expression. -/
def parse (text : String) : Except ParseError Expression :=
  if text.toList.contains '(' then
    .error (.parenthesis text)
  else
    let source := stripBlanks text
    let atoms := atomsOf source.toList
    .ok ⟨source, atoms, isFormula atoms⟩

/-- The references of an expression, in source order. -/
def references (e : Expression) : List String := e.atoms.filterMap Atom.reference?

/-- What reading an expression reports: a warning if some text in it looks like a
reference. -/
def warnings (e : Expression) : List Event :=
  if e.atoms.any Atom.looksLikeReference then [.keptAsText e.source] else []

/-- Reads an expression and reports its warnings. -/
def read (text : String) : Traced ParseError Expression :=
  match parse text with
  | .ok e => ⟨e.warnings, .ok e⟩
  | .error error => ⟨[], .error error⟩

@[simp] theorem result_read (text : String) : (read text).result = parse text := by
  unfold read
  split <;> simp_all

theorem parse_eq_error_iff {text : String} {error : ParseError} :
    parse text = .error error ↔ '(' ∈ text.toList ∧ error = .parenthesis text := by
  unfold parse
  by_cases h : '(' ∈ text.toList <;> simp [h, eq_comm]

end Expression

/-- The expression of a token, or of one member of a composite token, at its place in the
tree. -/
structure TokenExpression extends Expression where
  /-- The dotted path, ending in `.value`, or in `.value.` and the member's key. -/
  path : String
  /-- The type of the token. -/
  tokenType : String
  /-- The key of a member of a composite token. -/
  member : Option String
  deriving DecidableEq, Repr

end DesignTokens
