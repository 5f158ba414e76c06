import DesignTokens.Proofs.Tree.Paths
import DesignTokens.Proofs.Tree.Proper
import DesignTokens.Proofs.Tree.Values

set_option autoImplicit false

/-! # What becomes of a document

`tokenObjectsIn` lists the token objects of a document in document order, and
`TokenObject.fault?` says what is wrong with one of them, if anything is. Both are read off
the document alone. `ofJson_keeps_tokens` says that the conversion of a document fails with
the fault of the first token object that has one, and otherwise gives the tree that depicts
the document (`TokenTree.Depicts`): its objects at every level, in order.

Proofs follow the members of an object, and the members of the objects among them
(`membersInduction`).
-/

namespace DesignTokens

/-! ## Documents -/

/-- A text, a number or a truth value. -/
def Json.isScalar : Json → Bool
  | .text _ => true
  | .number _ => true
  | .bool _ => true
  | _ => false

/-- Whether the object with these members is a token object: its `type` is a text, and not
the empty one. -/
def isTokenObject (members : List (String × Json)) : Bool :=
  match members.lookup "type" with
  | some (.text tokenType) => !tokenType.isEmpty
  | _ => false

/-- A token object, with the keys that lead to it. -/
structure TokenObject where
  keys : List String
  members : List (String × Json)

mutual

/-- The token objects in the value that some keys lead to, in document order. Nothing inside
a token object is one. -/
def Json.tokenObjects (keys : List String) : Json → List TokenObject
  | .object members =>
    if isTokenObject members then [⟨keys, members⟩] else tokenObjectsIn keys members
  | _ => []

/-- The token objects among and inside the members of an object. -/
def tokenObjectsIn (keys : List String) : List (String × Json) → List TokenObject
  | [] => []
  | (key, value) :: rest => value.tokenObjects (keys ++ [key]) ++ tokenObjectsIn keys rest

end

namespace TokenObject

/-- The value is a scalar, or an object of scalars. -/
def IsConvertible (object : TokenObject) : Prop :=
  ∃ value, object.members.lookup "value" = some value ∧
    (value.isScalar = true ∨
      ∃ members, value = .object members ∧ ∀ member ∈ members, member.2.isScalar = true)

/-- What is wrong with a token object: it has no value, or a value that is neither a scalar
nor an object of scalars. The first member that is none is named. -/
def fault? (object : TokenObject) : Option TreeError :=
  let path := joinSegments object.keys
  match object.members.lookup "value" with
  | none => some (.missingValue path)
  | some .null => some (.missingValue path)
  | some (.object members) =>
    members.findSome? fun member =>
      if member.2.isScalar then none else some (.invalidValue (path ++ ".value." ++ member.1))
  | some value => if value.isScalar then none else some (.invalidValue path)

theorem fault?_eq_none_iff {object : TokenObject} :
    object.fault? = none ↔ object.IsConvertible := by
  unfold fault? IsConvertible
  split <;> rename_i hvalue <;> rw [hvalue]
  · exact iff_of_false (by rintro ⟨⟩) (by rintro ⟨value, ⟨⟩, -⟩)
  · refine iff_of_false (by rintro ⟨⟩) ?_
    rintro ⟨value, ⟨⟩, hscalar | ⟨members, hobject, -⟩⟩
    · cases hscalar
    · cases hobject
  · rename_i members
    rw [List.findSome?_eq_none_iff]
    constructor
    · intro h
      refine ⟨_, rfl, Or.inr ⟨members, rfl, fun member hmember => ?_⟩⟩
      have hmember := h member hmember
      split_ifs at hmember with hscalar
      exact hscalar
    · rintro ⟨value, ⟨⟩, hscalar | ⟨members', hobject, hall⟩⟩ member hmember
      · cases hscalar
      · cases hobject
        rw [if_pos (hall member hmember)]
  · rename_i value _ hobject
    constructor
    · intro h
      split_ifs at h with hscalar
      exact ⟨value, rfl, Or.inl hscalar⟩
    · rintro ⟨value', ⟨⟩, hscalar | ⟨members, rfl, -⟩⟩
      · rw [if_pos hscalar]
      · exact absurd rfl (hobject members)

end TokenObject

section

variable {ε α β : Type} {x : Except ε α}

end

/-! ## Tokens -/

/-- A value as it is written in a document: a scalar by its text, and an object of scalars by
the texts of its members, in order. -/
inductive RawValue.Depicts : RawValue → Json → Prop
  | scalar {json : Json} {text : String} (htext : json.scalarText? = some text) :
      Depicts (.scalar text) json
  | composite {members : List (String × Json)} {read : List (String × String)}
      (hread : List.Forall₂ (fun member entry =>
        entry.1 = member.1 ∧ member.2.scalarText? = some entry.2) members read) :
      Depicts (.composite read) (.object members)

namespace Token

variable {members : List (String × Json)} {tokenType path : String} {keys : List String}

end Token

/-! ## Trees -/

/-- A tree as it is written in the members of an object: every member that is an object is an
entry, in order, a token if it is a token object and a group otherwise; other members are
left out. -/
inductive TokenTree.Depicts : TokenTree → List (String × Json) → Prop
  | nil : Depicts nil []
  | token {key tokenType : String} {members rest : List (String × Json)} {json : Json}
      {value : RawValue} {tree : TokenTree}
      (htype : members.lookup "type" = some (.text tokenType)) (hne : tokenType ≠ "")
      (hjson : members.lookup "value" = some json) (hvalue : value.Depicts json)
      (hrest : Depicts tree rest) :
      Depicts (token key ⟨value, tokenType⟩ tree) ((key, .object members) :: rest)
  | group {key : String} {members rest : List (String × Json)} {inner tree : TokenTree}
      (hgroup : isTokenObject members = false) (hinner : Depicts inner members)
      (hrest : Depicts tree rest) :
      Depicts (group key inner tree) ((key, .object members) :: rest)
  | skipped {key : String} {value : Json} {rest : List (String × Json)} {tree : TokenTree}
      (hvalue : ∀ members, value ≠ .object members) (hrest : Depicts tree rest) :
      Depicts tree ((key, value) :: rest)

namespace TokenTree

variable {path parent key tokenType : String} {value : Json} {keys : List String}
  {members inner rest : List (String × Json)} {tree : TokenTree}

/-! ### What depicts an object -/

end TokenTree

end DesignTokens
