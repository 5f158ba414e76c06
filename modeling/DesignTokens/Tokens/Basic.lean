import DesignTokens.Text.Quoted
import DesignTokens.Tokens.Registry

set_option autoImplicit false

/-! # Token sets

A token set is a tree with its expressions, the lookup table of all their references, and
the formatters in use. `TokenSet.load` makes one; `TokenSet.valueFor` formats what is found
under a key, which is the start of one or more paths.
-/

namespace DesignTokens

/-- A loaded token tree. -/
structure TokenSet where
  tree : TokenTree
  expressions : List TokenExpression
  table : LookupTable
  formatters : FormatterRegistry

/-- The formatter that applies to a key, and what was found for it. -/
structure Selection where
  formatter : Formatter
  found : List TokenExpression

/-- The deepest nesting of values that formatters ask one another for. This is not a rule of
token sets, which set no limit. It only makes the questions end that formatters ask one another
without end, so no statement about a formatter should depend on its value. -/
def maxFormatterNesting : Nat := 1000

namespace TokenSet

/-- Reads every value of a tree and looks up every reference. -/
def load (tree : TokenTree) (formatters : FormatterRegistry) : Traced TokenError TokenSet := do
  let expressions ← (tree.flatten "").mapError .unreadable
  let build := LookupTable.build (expressions.map (·.toExpression)) tree.source
  let table ← build.outcome.mapError .evaluation
  .report (.loadedTree expressions.length table.size)
  return ⟨tree, expressions, table, formatters⟩

/-- Loads the tree of the text of a document. -/
def loadText (text : String) (formatters : FormatterRegistry) : Traced TokenError TokenSet := do
  load (← (TokenTree.ofText text).mapError .tree) formatters

/-- The expressions whose path starts with a key, in document order. -/
def matching (tokens : TokenSet) (key : String) : List TokenExpression :=
  tokens.expressions.filter fun e => key.toList.isPrefixOf e.path.toList

/-- The formatter for a key and what it is to format. All expressions found have to share
one type; without a formatter for it the one for single values is used. -/
def select (tokens : TokenSet) (key : String) : Except TokenError Selection :=
  let found := tokens.matching key
  match (found.map TokenExpression.tokenType).eraseDups with
  | [] => .error (.notFound key)
  | [own] =>
    let tokenType := if tokens.formatters.contains own then own else defaultType
    if tokenType = defaultType ∧ 1 < found.length then
      .error (.ambiguousMatch key found.length)
    else
      match tokens.formatters.get? tokenType with
      | some formatter => .ok ⟨formatter, found⟩
      | none => .error (.unknownFormatter tokenType)
  | types => .error (.conflictingTypes key types)

/-- The formatted value of a key, with this many nested questions left to formatters. Token sets
keep no such count, it only bounds the recursion: selecting and formatting are the same at every
count above zero, and zero stands for questions inside questions without end, which no value
answers. -/
def valueForWithin (tokens : TokenSet) : Nat → String → Traced TokenError String
  | 0, key => .fail (.endlessFormatting key)
  | nesting + 1, key => do
    let selection ← .ofExcept (tokens.select key)
    .report (.dispatching key selection.formatter.tokenType selection.found.length)
    let view : TokenView :=
      ⟨tokens.tree, tokens.expressions, tokens.table, tokens.valueForWithin nesting⟩
    selection.formatter.format view selection.found

/-- The formatted value of a key. -/
def valueFor (tokens : TokenSet) (key : String) : Traced TokenError String :=
  tokens.valueForWithin (maxFormatterNesting + 1) key

/-- What a formatter may ask of the tokens. -/
def view (tokens : TokenSet) : TokenView :=
  ⟨tokens.tree, tokens.expressions, tokens.table, tokens.valueFor⟩

/-- A short description: how many expressions there are, and which types have a
formatter. -/
def describe (tokens : TokenSet) : String :=
  "TokensObject \x7b expressions: " ++ toString tokens.expressions.length ++
    ", parsers: ParserRegistry \x7b types: [" ++
    ", ".intercalate (tokens.formatters.types.map quoted) ++ "] \x7d \x7d"

end TokenSet

end DesignTokens
