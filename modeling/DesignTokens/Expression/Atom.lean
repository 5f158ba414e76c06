import DesignTokens.Decimal.Reader
import DesignTokens.Expression.Operator

set_option autoImplicit false

/-! # Atoms

The typed pieces of a token value. `Atom.ofTerm` decides what a term is: a reference in
braces, a number with an optional unit, or verbatim text. A number is cut at digits of any
script (`Atom.splitNumber?`), and only one whose digits `Decimal.read?` accepts is a number.
Every atom keeps the text it was read from (`Atom.sourceText`).
-/

namespace DesignTokens

/-- One piece of a token value. -/
inductive Atom
  /-- An operator before the next term. -/
  | operator (op : Operator)
  /-- A number with its unit, which is empty when there is none. -/
  | number (value : Decimal) (unit text : String)
  /-- Text that is neither a number nor a reference. -/
  | verbatim (text : String)
  /-- The path of another token, braces included. -/
  | reference (text : String)
  deriving DecidableEq, Repr

/-- The path inside the braces of a reference; a text that is not in braces is kept. -/
def stripBraces (reference : String) : String :=
  match reference.toList with
  | '{' :: rest =>
    match rest.getLast? with
    | some '}' => String.ofList rest.dropLast
    | _ => reference
  | _ => reference

namespace Atom

/-- The text an atom was read from. -/
def sourceText : Atom → String
  | operator op => op.text
  | number _ _ text => text
  | verbatim text => text
  | reference text => text

/-- The text of a reference atom. -/
def reference? : Atom → Option String
  | reference text => some text
  | _ => none

/-- Whether an atom is verbatim text. -/
def isVerbatim : Atom → Bool
  | verbatim _ => true
  | _ => false

/-- Whether an atom is verbatim text that starts like a reference. -/
def looksLikeReference : Atom → Bool
  | verbatim text => text.toList.head? == some '{'
  | _ => false

/-- Whether a term is one or more path characters in braces. -/
def isReferenceTerm (term : List Char) : Bool :=
  match term with
  | '{' :: rest =>
    match rest.dropWhile isPathChar with
    | ['}'] => !(rest.takeWhile isPathChar).isEmpty
    | _ => false
  | _ => false

/-- Splits a number literal into the digits before its point, the digits after it, and its
unit. There is at least one digit, and a point without digits before it has digits after. The
digits are those of any script. -/
def splitNumber? (term : List Char) : Option (List Char × List Char × List Char) :=
  let whole := term.takeWhile isAnyDigit
  match term.dropWhile isAnyDigit with
  | '.' :: rest =>
    let places := rest.takeWhile isAnyDigit
    let unit := rest.dropWhile isAnyDigit
    if !(whole.isEmpty && places.isEmpty) && unit.all isUnitChar then
      some (whole, places, unit)
    else
      none
  | unit =>
    if !whole.isEmpty && unit.all isUnitChar then some (whole, [], unit) else none

/-- The atom of a number literal whose digits make a decimal. -/
def ofNumber? (term : List Char) : Option Atom := do
  let (whole, places, unit) ← splitNumber? term
  let value ← Decimal.read? whole places
  return number value (String.ofList unit) (String.ofList term)

/-- The atom of a term. -/
def ofTerm (term : List Char) : Atom :=
  if isReferenceTerm term then
    reference (String.ofList term)
  else
    (ofNumber? term).getD (verbatim (String.ofList term))

end Atom

end DesignTokens
