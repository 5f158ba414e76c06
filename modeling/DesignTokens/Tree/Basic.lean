import DesignTokens.Tree.Path

set_option autoImplicit false

/-! # Token trees

Tokens in nested groups, in document order. A tree is the list of entries of one group;
an entry is a token or a group, which is a tree again. Keys may repeat: the first entry of
a key is the one that `TokenTree.get?` and `TokenTree.leaf?` find.

The path to a value ends in `value`: `["sm", "value"]` for the token `sm`, and
`["heading", "value", "fontSize"]` for a member of the composite token `heading`.
-/

namespace DesignTokens

/-- The value of a token as it was written. -/
inductive RawValue
  /-- A single value, such as `4px`. -/
  | scalar (text : String)
  /-- The members of a composite token, such as a text style. -/
  | composite (members : List (String × String))
  deriving DecidableEq, Repr

/-- A value with a type. -/
structure Token where
  value : RawValue
  tokenType : String
  deriving DecidableEq, Repr

/-- The entries of a group, in order. -/
inductive TokenTree
  | nil
  | group (key : String) (entries rest : TokenTree)
  | token (key : String) (token : Token) (rest : TokenTree)
  deriving DecidableEq, Repr

/-- What an entry holds. -/
inductive TokenNode
  | group (entries : TokenTree)
  | token (token : Token)
  deriving DecidableEq, Repr

/-- The text of a token at a path that starts in it. -/
def Token.leaf? (token : Token) : List String → Option String
  | ["value"] =>
    match token.value with
    | .scalar text => some text
    | .composite _ => none
  | ["value", key] =>
    match token.value with
    | .scalar _ => none
    | .composite members => members.lookup key
  | _ => none

namespace TokenTree

instance : Inhabited TokenTree := ⟨nil⟩

/-- The entries with their keys. -/
def entries : TokenTree → List (String × TokenNode)
  | nil => []
  | group key inner rest => (key, .group inner) :: rest.entries
  | token key t rest => (key, .token t) :: rest.entries

/-- Whether there are no entries. -/
def isEmpty : TokenTree → Bool
  | nil => true
  | _ => false

/-- The number of entries. -/
def size (tree : TokenTree) : Nat := tree.entries.length

/-- The first entry with a key. -/
def get? (tree : TokenTree) (key : String) : Option TokenNode := tree.entries.lookup key

/-- The entries of one tree followed by those of another. -/
def append : TokenTree → TokenTree → TokenTree
  | nil, other => other
  | group key inner rest, other => group key inner (rest.append other)
  | token key t rest, other => token key t (rest.append other)

instance : Append TokenTree := ⟨append⟩

/-- The tree with one more entry in front. -/
def cons (key : String) : TokenNode → TokenTree → TokenTree
  | .group inner, rest => group key inner rest
  | .token t, rest => token key t rest

/-- Adds an entry after the others. -/
def push (tree : TokenTree) (key : String) (node : TokenNode) : TokenTree :=
  tree ++ cons key node nil

/-- The text at the end of a path; there is none if the path ends on a group, on a whole
token or on a composite value, or leads nowhere. -/
def leaf? : TokenTree → List String → Option String
  | nil, _ => none
  | group _ _ _, [] => none
  | token _ _ _, [] => none
  | group key inner rest, segment :: path =>
    if segment = key then inner.leaf? path else rest.leaf? (segment :: path)
  | token key t rest, segment :: path =>
    if segment = key then t.leaf? path else rest.leaf? (segment :: path)

/-- The raw value a reference path stands for: the text at the path with `value` after it,
or else at the path itself. -/
def rawValue? (tree : TokenTree) (path : String) : Option String :=
  (tree.leaf? (segments path ++ ["value"])).or (tree.leaf? (segments path))

@[simp] theorem nil_append (tree : TokenTree) : nil ++ tree = tree := rfl

@[simp] theorem group_append (key : String) (inner rest other : TokenTree) :
    group key inner rest ++ other = group key inner (rest ++ other) := rfl

@[simp] theorem token_append (key : String) (t : Token) (rest other : TokenTree) :
    token key t rest ++ other = token key t (rest ++ other) := rfl

@[simp] theorem entries_cons (key : String) (node : TokenNode) (rest : TokenTree) :
    (cons key node rest).entries = (key, node) :: rest.entries := by
  cases node <;> rfl

/-- A path is followed through the first entry of its first segment. -/
theorem leaf?_cons (tree : TokenTree) (segment : String) (path : List String) :
    tree.leaf? (segment :: path) =
      match tree.get? segment with
      | some (.group inner) => inner.leaf? path
      | some (.token t) => t.leaf? path
      | none => none := by
  induction tree with
  | nil => rfl
  | group key inner rest _ ih =>
    by_cases h : segment = key
    · simp [leaf?, get?, entries, h]
    · simp [leaf?, get?, entries, h, List.lookup_cons, beq_eq_false_iff_ne.mpr h, ih]
  | token key t rest ih =>
    by_cases h : segment = key
    · simp [leaf?, get?, entries, h]
    · simp [leaf?, get?, entries, h, List.lookup_cons, beq_eq_false_iff_ne.mpr h, ih]

end TokenTree

end DesignTokens
