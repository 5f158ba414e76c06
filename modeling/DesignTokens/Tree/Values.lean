import DesignTokens.Lookup.Source
import DesignTokens.Tree.Basic

set_option autoImplicit false

/-! # The values of a tree

`TokenTree.values` lists every value of a tree in document order, a scalar token's own and
each member of a composite token. `TokenTree.flatten` reads them as expressions, and
`TokenTree.source` answers references with them; `exists_mem_values_of_leaf?` says that a
path leads to nothing else.
-/

namespace DesignTokens

/-- A value of a tree, not yet read. -/
structure PlacedValue where
  /-- The text of the value. -/
  text : String
  /-- The dotted path, ending in `.value`, or in `.value.` and the member's key. -/
  path : String
  /-- The type of the token. -/
  tokenType : String
  /-- The key of a member of a composite token. -/
  member : Option String
  deriving DecidableEq, Repr

/-- Reads a value as an expression at its place. -/
def PlacedValue.read (value : PlacedValue) : Traced ParseError TokenExpression := do
  let e ← Expression.read value.text
  return ⟨e, value.path, value.tokenType, value.member⟩

/-- The values of the token at a path. -/
def Token.values (path : String) (token : Token) : List PlacedValue :=
  match token.value with
  | .scalar text => [⟨text, path ++ ".value", token.tokenType, none⟩]
  | .composite members =>
    members.map fun (key, text) =>
      ⟨text, path ++ ".value." ++ key, token.tokenType, some key⟩

/-- A text at the end of a path in a token is the text of one of its values. -/
theorem Token.exists_mem_values_of_leaf? {token : Token} {path : List String} {text : String}
    (h : token.leaf? path = some text) (place : String) :
    ∃ value ∈ token.values place, value.text = text := by
  obtain ⟨value, tokenType⟩ := token
  unfold Token.leaf? at h
  cases value with
  | scalar content =>
    split at h
    · exact ⟨_, List.mem_singleton_self _, Option.some.inj h⟩
    · simp at h
    · simp at h
  | composite members =>
    split at h
    · simp at h
    · obtain ⟨before, after, hmembers, _⟩ := List.lookup_eq_some_iff.mp h
      exact ⟨_, List.mem_map_of_mem (hmembers ▸ List.mem_append_right _ List.mem_cons_self), rfl⟩
    · simp at h

namespace TokenTree

/-- The values of the group at a path, in document order. -/
def values (parent : String) : TokenTree → List PlacedValue
  | nil => []
  | group key inner rest => inner.values (childPath parent key) ++ rest.values parent
  | token key t rest => t.values (childPath parent key) ++ rest.values parent

/-- The expressions of the group at a path, in document order. -/
def flatten (parent : String) (tree : TokenTree) : Traced ParseError (List TokenExpression) :=
  (tree.values parent).mapM PlacedValue.read

/-- A text at the end of a path is the text of a value of the tree. -/
theorem exists_mem_values_of_leaf? {tree : TokenTree} {path : List String} {text : String}
    (h : tree.leaf? path = some text) (parent : String) :
    ∃ value ∈ tree.values parent, value.text = text := by
  induction tree generalizing path parent with
  | nil => simp [leaf?] at h
  | group key inner rest ihInner ihRest =>
    cases path with
    | nil => simp [leaf?] at h
    | cons segment path =>
      unfold leaf? at h
      split at h
      · obtain ⟨value, hmem, htext⟩ := ihInner h (childPath parent key)
        exact ⟨value, List.mem_append_left _ hmem, htext⟩
      · obtain ⟨value, hmem, htext⟩ := ihRest h parent
        exact ⟨value, List.mem_append_right _ hmem, htext⟩
  | token key t rest ih =>
    cases path with
    | nil => simp [leaf?] at h
    | cons segment path =>
      unfold leaf? at h
      split at h
      · obtain ⟨value, hmem, htext⟩ := Token.exists_mem_values_of_leaf? h (childPath parent key)
        exact ⟨value, List.mem_append_left _ hmem, htext⟩
      · obtain ⟨value, hmem, htext⟩ := ih h parent
        exact ⟨value, List.mem_append_right _ hmem, htext⟩

theorem exists_mem_values_of_rawValue? {tree : TokenTree} {path text : String}
    (h : tree.rawValue? path = some text) :
    ∃ value ∈ tree.values "", value.text = text := by
  rcases Option.or_eq_some_iff.mp h with h | ⟨_, h⟩
  · exact exists_mem_values_of_leaf? h ""
  · exact exists_mem_values_of_leaf? h ""

/-- The source that answers reference paths with the values of a tree. -/
def source (tree : TokenTree) : Source where
  raw? := tree.rawValue?
  texts := (tree.values "").map PlacedValue.text
  mem_texts h := by
    obtain ⟨value, hmem, htext⟩ := exists_mem_values_of_rawValue? h
    exact List.mem_map.mpr ⟨value, hmem, htext⟩

end TokenTree

end DesignTokens
