import DesignTokens.Proofs.Tree.Paths
import DesignTokens.Tree.Basic

set_option autoImplicit false

/-! # The two readings of a path

The path of a reference is read with `value` after it, and otherwise as it is. Groups, tokens
and members may all have the key `value`, so the segments of a path do not show where the token
ends that it leads into. But a tree holds texts at places (`TokenTree.Holds`), and none of these
begins with another (`TokenTree.Holds.eq_of_isPrefix`).

A path leads to a text exactly if it is made of the segments of a place that holds the text
(`TokenTree.leaf?_eq_some_iff`), so it leads no further (`TokenTree.leaf?_append_eq_none`). The
readings never compete then: a text that either of them finds is the raw value
(`TokenTree.rawValue?_eq_some_iff`), and both stand for one place
(`rawValue?_has_one_reading`).
-/

namespace DesignTokens

/-! ## Texts at places -/

/-- Where a value stands: the keys that lead to its token, and the key of the member if the
token is composite. -/
@[ext] structure Place where
  keys : List String
  member : Option String
  deriving DecidableEq, Repr

/-- All the keys that lead to a value. -/
def Place.segments (place : Place) : List String := place.keys ++ "value" :: place.member.toList

/-- The text of a scalar token, or of a member of a composite one. -/
def Token.text? (t : Token) (member : Option String) : Option String :=
  match t.value, member with
  | .scalar text, none => some text
  | .composite members, some key => members.lookup key
  | _, _ => none

/-- A path into a token is `value`, with the key of the member if there is one. -/
theorem Token.leaf?_eq_some_iff {t : Token} {path : List String} {text : String} :
    t.leaf? path = some text ↔
      ∃ member, t.text? member = some text ∧ path = "value" :: member.toList := by
  obtain ⟨value, tokenType⟩ := t
  constructor
  · intro h
    unfold leaf? at h
    split at h
    · cases value with
      | scalar content => exact ⟨none, h, rfl⟩
      | composite members => cases h
    · rename_i key
      cases value with
      | scalar content => cases h
      | composite members => exact ⟨some key, h, rfl⟩
    · cases h
  · rintro ⟨member, htext, rfl⟩
    cases value <;> cases member <;> exact htext

/-- A token is either scalar or composite: places in it that begin alike are the same. -/
theorem Token.eq_of_isPrefix {t : Token} {member member' : Option String} {text text' : String}
    (h : t.text? member = some text) (h' : t.text? member' = some text')
    (hfront : member.toList <+: member'.toList) : member = member' := by
  obtain ⟨value, tokenType⟩ := t
  cases value with
  | scalar content =>
      cases member with
      | some key => cases h
      | none =>
          cases member' with
          | some key => cases h'
          | none => rfl
  | composite members =>
      cases member with
      | none => cases h
      | some key =>
          cases member' with
          | none => cases h'
          | some key' =>
              have hkeys : key = key' := (List.cons_prefix_cons.mp hfront).1
              rw [hkeys]

namespace TokenTree

/-- Keys that lead to a token, by the first entry of each key. -/
inductive LeadsTo : TokenTree → List String → Token → Prop
  | token {tree : TokenTree} {key : String} {t : Token} (h : tree.get? key = some (.token t)) :
      LeadsTo tree [key] t
  | group {tree inner : TokenTree} {key : String} {keys : List String} {t : Token}
      (h : tree.get? key = some (.group inner)) (hinner : LeadsTo inner keys t) :
      LeadsTo tree (key :: keys) t

/-- A tree holds a text at a place if the keys lead to a token that has it there. -/
def Holds (tree : TokenTree) (place : Place) (text : String) : Prop :=
  ∃ t, tree.LeadsTo place.keys t ∧ t.text? place.member = some text

variable {tree : TokenTree} {keys keys' path : List String} {t t' : Token}
  {place place' : Place} {text text' : String}

/-- Keys that go on from those of a token lead to no other token. -/
theorem LeadsTo.eq_of_isPrefix (h : tree.LeadsTo keys t) (h' : tree.LeadsTo keys' t')
    (hfront : keys <+: keys') : keys = keys' ∧ t = t' := by
  induction h generalizing keys' with
  | token hentry =>
      cases h' with
      | token hentry' =>
          obtain ⟨rfl, -⟩ := List.cons_prefix_cons.mp hfront
          rw [hentry] at hentry'
          cases hentry'
          exact ⟨rfl, rfl⟩
      | group hentry' hinner' =>
          obtain ⟨rfl, -⟩ := List.cons_prefix_cons.mp hfront
          rw [hentry] at hentry'
          cases hentry'
  | group hentry hinner ih =>
      cases h' with
      | token hentry' =>
          obtain ⟨rfl, -⟩ := List.cons_prefix_cons.mp hfront
          rw [hentry] at hentry'
          cases hentry'
      | group hentry' hinner' =>
          obtain ⟨rfl, hrest⟩ := List.cons_prefix_cons.mp hfront
          rw [hentry] at hentry'
          cases hentry'
          obtain ⟨hkeys, htoken⟩ := ih hinner' hrest
          exact ⟨congrArg _ hkeys, htoken⟩

/-- No place that holds a text begins with another, whichever of the keys are `value`. -/
theorem Holds.eq_of_isPrefix (h : tree.Holds place text) (h' : tree.Holds place' text')
    (hfront : place.segments <+: place'.segments) : place = place' := by
  obtain ⟨t, hleads, htext⟩ := h
  obtain ⟨t', hleads', htext'⟩ := h'
  -- the keys of both tokens are fronts of one list, so the tokens are the same
  have hkeys : place.keys = place'.keys ∧ t = t' := by
    have hbelow : place.keys <+: place'.segments := (List.prefix_append _ _).trans hfront
    rcases List.prefix_or_prefix_of_prefix hbelow (List.prefix_append place'.keys _) with hle | hge
    · exact hleads.eq_of_isPrefix hleads' hle
    · obtain ⟨hkeys, htoken⟩ := hleads'.eq_of_isPrefix hleads hge
      exact ⟨hkeys.symm, htoken.symm⟩
  obtain ⟨hkeys, rfl⟩ := hkeys
  rw [Place.segments, Place.segments, hkeys, List.prefix_append_right_inj,
    List.cons_prefix_cons] at hfront
  exact Place.ext hkeys (Token.eq_of_isPrefix htext htext' hfront.2)

/-- A path leads to a text exactly if it is written from a place that holds the text. -/
theorem leaf?_eq_some_iff :
    tree.leaf? path = some text ↔ ∃ place, tree.Holds place text ∧ path = place.segments := by
  constructor
  · intro h
    -- each segment is the key of a group, up to the one of the token
    induction path generalizing tree with
    | nil => cases tree <;> cases h
    | cons segment path ih =>
        rw [leaf?_cons] at h
        cases hentry : tree.get? segment with
        | none =>
            rw [hentry] at h
            cases h
        | some node =>
            rw [hentry] at h
            cases node with
            | group inner =>
                obtain ⟨place, ⟨t, hleads, htext⟩, rfl⟩ := ih h
                exact ⟨⟨segment :: place.keys, place.member⟩, ⟨t, .group hentry hleads, htext⟩, rfl⟩
            | token t =>
                obtain ⟨member, htext, rfl⟩ := Token.leaf?_eq_some_iff.mp h
                exact ⟨⟨[segment], member⟩, ⟨t, .token hentry, htext⟩, rfl⟩
  · rintro ⟨⟨keys, member⟩, ⟨t, (hleads : tree.LeadsTo keys t), htext⟩, rfl⟩
    induction hleads with
    | token hentry =>
        rw [Place.segments, List.singleton_append, leaf?_cons, hentry]
        exact Token.leaf?_eq_some_iff.mpr ⟨member, htext, rfl⟩
    | group hentry hinner ih =>
        rw [Place.segments, List.cons_append, leaf?_cons, hentry]
        exact ih htext

/-- A path that leads to a text leads no further. -/
theorem leaf?_append_eq_none {more : List String} (h : tree.leaf? path = some text)
    (hmore : more ≠ []) : tree.leaf? (path ++ more) = none := by
  obtain ⟨place, hholds, rfl⟩ := leaf?_eq_some_iff.mp h
  refine Option.eq_none_iff_forall_ne_some.mpr fun text' h' => ?_
  obtain ⟨place', hholds', hpath⟩ := leaf?_eq_some_iff.mp h'
  have hsame : place = place' := hholds.eq_of_isPrefix hholds' ⟨more, hpath⟩
  rw [← hsame] at hpath
  exact hmore (List.append_right_eq_self.mp hpath)

end TokenTree

/-! ## The two readings -/

/-- A path can be read as the segments of a place, as it is or with `value` after it. -/
def ReadsAs (path : String) (place : Place) : Prop :=
  segments path = place.segments ∨ segments path ++ ["value"] = place.segments

/-- Of two places that a path can be read as, the segments of one begin with those of the
other. -/
theorem ReadsAs.isPrefix_or {path : String} {place place' : Place} (h : ReadsAs path place)
    (h' : ReadsAs path place') :
    place.segments <+: place'.segments ∨ place'.segments <+: place.segments := by
  rcases h with h | h <;> rcases h' with h' | h' <;> rw [← h, ← h']
  · exact Or.inl List.prefix_rfl
  · exact Or.inl (List.prefix_append _ _)
  · exact Or.inr (List.prefix_append _ _)
  · exact Or.inl List.prefix_rfl

namespace TokenTree

variable {tree : TokenTree} {path text text' : String} {place place' : Place}

/-- A raw value is what either reading of the path leads to. -/
theorem rawValue?_eq_some_iff :
    tree.rawValue? path = some text ↔
      tree.leaf? (segments path ++ ["value"]) = some text ∨
        tree.leaf? (segments path) = some text := by
  rw [rawValue?, Option.or_eq_some_iff]
  constructor
  · rintro (h | ⟨-, h⟩)
    · exact Or.inl h
    · exact Or.inr h
  · rintro (h | h)
    · exact Or.inl h
    · exact Or.inr ⟨leaf?_append_eq_none h (List.cons_ne_nil _ _), h⟩

/-- A path has a raw value exactly if it can be read as a place that holds it. -/
theorem rawValue?_eq_some_iff_holds :
    tree.rawValue? path = some text ↔ ∃ place, tree.Holds place text ∧ ReadsAs path place := by
  rw [rawValue?_eq_some_iff, leaf?_eq_some_iff, leaf?_eq_some_iff, ← exists_or]
  refine exists_congr fun place => ?_
  rw [← and_or_left, ReadsAs, or_comm]

theorem Holds.eq_of_readsAs (h : tree.Holds place text) (h' : tree.Holds place' text')
    (hpath : ReadsAs path place) (hpath' : ReadsAs path place') : place = place' := by
  rcases hpath.isPrefix_or hpath' with hfront | hfront
  · exact h.eq_of_isPrefix h' hfront
  · exact (h'.eq_of_isPrefix h hfront).symm

/-- A path that leads to a text with `value` after it keeps its raw value when this `value` is
written out. -/
theorem rawValue?_value (h : tree.leaf? (segments path ++ ["value"]) = some text) :
    tree.rawValue? (path ++ ".value") = some text := by
  rw [rawValue?_eq_some_iff, segments_value]
  exact Or.inr h

end TokenTree

/-- **The two readings of a path never compete.** In any tree, a path leads to a text as it is
or with `value` after it, and never both ways. So the raw value of the path is what either way
leads to, and the order in which they are tried makes no difference; a path that leads to a
text with `value` after it has the raw value of the path with `.value` written out. The raw
value is the text that the tree holds at a place the path can be read as, and there is one such
place at most, whichever groups, tokens and members have the key `value`. -/
theorem rawValue?_has_one_reading (tree : TokenTree) (path : String) :
    (tree.leaf? (segments path) = none ∨ tree.leaf? (segments path ++ ["value"]) = none) ∧
    (∀ text, tree.rawValue? path = some text ↔
      tree.leaf? (segments path) = some text ∨
        tree.leaf? (segments path ++ ["value"]) = some text) ∧
    tree.rawValue? path =
      (tree.leaf? (segments path)).or (tree.leaf? (segments path ++ ["value"])) ∧
    (∀ text, tree.leaf? (segments path ++ ["value"]) = some text →
      tree.rawValue? path = some text ∧ tree.rawValue? (path ++ ".value") = some text) ∧
    (∀ text, tree.rawValue? path = some text ↔
      ∃ place, tree.Holds place text ∧ ReadsAs path place) ∧
    ∀ place place' text text', tree.Holds place text → tree.Holds place' text' →
      ReadsAs path place → ReadsAs path place' → place = place' := by
  have hnever : tree.leaf? (segments path) = none ∨
      tree.leaf? (segments path ++ ["value"]) = none := by
    cases hleaf : tree.leaf? (segments path) with
    | none => exact Or.inl rfl
    | some text => exact Or.inr (TokenTree.leaf?_append_eq_none hleaf (List.cons_ne_nil _ _))
  refine ⟨hnever, fun text => ?_, ?_, fun text h => ⟨?_, TokenTree.rawValue?_value h⟩,
    fun text => TokenTree.rawValue?_eq_some_iff_holds,
    fun place place' text text' h h' => h.eq_of_readsAs h'⟩
  · rw [TokenTree.rawValue?_eq_some_iff, or_comm]
  · rw [TokenTree.rawValue?]
    rcases hnever with hnone | hnone <;> rw [hnone, Option.or_none, Option.none_or]
  · exact TokenTree.rawValue?_eq_some_iff.mpr (Or.inl h)

/-- Groups, tokens and members with the key `value`, and repeated keys. -/
def repeatedValueTree : TokenTree :=
  .group "value"
    (.token "value" ⟨.composite [("value", "1px"), ("size", "2px"), ("value", "3px")], "box"⟩
      (.group "value" (.token "value" ⟨.scalar "4px", "size"⟩ .nil) .nil))
    (.token "value" ⟨.scalar "5px", "size"⟩ .nil)

theorem rawValue?_has_one_reading_repeated :
    repeatedValueTree.leaf? ["value", "value", "value"] = none ∧
      repeatedValueTree.leaf? ["value", "value", "value", "value"] = some "1px" ∧
      repeatedValueTree.rawValue? "value.value.value" = some "1px" ∧
      repeatedValueTree.rawValue? "value.value.value.value" = some "1px" ∧
      repeatedValueTree.Holds ⟨["value", "value"], some "value"⟩ "1px" ∧
      ∀ place text, repeatedValueTree.Holds place text →
        ReadsAs "value.value.value" place → place = ⟨["value", "value"], some "value"⟩ := by
  have hsegments : segments "value.value.value" = ["value", "value", "value"] := by
    decide +kernel
  have hleaf : repeatedValueTree.leaf? (segments "value.value.value" ++ ["value"]) =
      some "1px" := by
    rw [hsegments]
    rfl
  have hholds : repeatedValueTree.Holds ⟨["value", "value"], some "value"⟩ "1px" :=
    ⟨_, .group rfl (.token rfl), rfl⟩
  have hreads : ReadsAs "value.value.value" ⟨["value", "value"], some "value"⟩ :=
    Or.inr (by rw [hsegments]; rfl)
  obtain ⟨-, -, -, hvalue, -, hone⟩ :=
    rawValue?_has_one_reading repeatedValueTree "value.value.value"
  obtain ⟨hraw, hraw'⟩ := hvalue "1px" hleaf
  exact ⟨rfl, rfl, hraw, hraw', hholds,
    fun place text h hpath => hone _ _ _ _ h hholds hpath hreads⟩

end DesignTokens
