import DesignTokens.Expression.Scan
import Mathlib.Data.List.Basic
import Mathlib.Data.List.Chain

set_option autoImplicit false

/-! # The pieces of a value

Scanning cuts a value into pieces that follow one another in few ways (`Piece.Follows`): a gap
comes behind a term, a term behind the first piece comes with its operator. So there are no two
gaps in a row, and a gap ends only where an operator starts the next piece, or the value ends.
-/

namespace DesignTokens

/-! ## Parts of what a list spells -/

/-- An element of what a list spells belongs to one item of the list. -/
theorem exists_item_of_flatMap {α β : Type} {f : α → List β} {items : List α} {x : β}
    {before after : List β} (h : items.flatMap f = before ++ x :: after) :
    ∃ earlier item later front back, items = earlier ++ item :: later ∧
      f item = front ++ x :: back ∧ before = earlier.flatMap f ++ front ∧
      after = back ++ later.flatMap f := by
  induction items generalizing before with
  | nil => simp at h
  | cons item items ih =>
      rw [List.flatMap_cons] at h
      obtain ⟨front, hbefore, hrest⟩ | ⟨back, hitem, hrest⟩ := List.append_eq_append_iff.mp h
      · obtain ⟨earlier, item', later, front', back, rfl, hitem', rfl, hafter⟩ := ih hrest
        refine ⟨item :: earlier, item', later, front', back, rfl, hitem', ?_, hafter⟩
        rw [hbefore, List.flatMap_cons, List.append_assoc]
      · cases back with
        | nil =>
            have hlater : items.flatMap f = [] ++ x :: after := hrest.symm
            obtain ⟨earlier, item', later, front', back, rfl, hitem', hfront, hafter⟩ := ih hlater
            refine ⟨item :: earlier, item', later, front', back, rfl, hitem', ?_, hafter⟩
            rw [List.flatMap_cons, List.append_assoc, ← hfront, List.append_nil]
            simpa using hitem.symm
        | cons y back =>
            cases hrest
            exact ⟨[], item, items, before, back, rfl, hitem, rfl, rfl⟩

/-! ## How pieces follow one another -/

/-- A term with its operator can follow any piece, a gap can follow a term. -/
inductive Piece.Follows : Piece → Piece → Prop
  | term {first : Piece} {op : Operator} {term : List Char} :
      Follows first (.term (some op) term)
  | gap {sign : Option Operator} {term text : List Char} {c : Char} :
      Follows (.term sign term) (.gap (c :: text))

/-- A character in front joins the gap behind a term, or is a gap there. -/
theorem isChain_consGap {first : Piece} {sign : Option Operator} {term : List Char}
    {pieces : List Piece} (hfirst : first = .term sign term)
    (h : (first :: pieces).IsChain Piece.Follows) (c : Char) :
    (first :: Piece.consGap c pieces).IsChain Piece.Follows := by
  subst hfirst
  cases h with
  | singleton => exact .cons_cons .gap (.singleton _)
  | cons_cons hfollows hrest =>
      cases hfollows with
      | term => exact .cons_cons .gap (.cons_cons .term hrest)
      | gap =>
          refine .cons_cons .gap ?_
          cases hrest with
          | singleton => exact .singleton _
          | cons_cons hfollows hrest =>
              cases hfollows with
              | term => exact .cons_cons .term hrest

/-- What is scanned behind a term follows it. -/
theorem isChain_scanRest (sign : Option Operator) (term text : List Char) :
    (.term sign term :: scanRest text).IsChain Piece.Follows := by
  fun_induction scanRest text generalizing sign term with
  | case1 => exact .singleton _
  | case2 c cs hop ih => exact isChain_consGap rfl (ih sign term) c
  | case3 c cs op hop hsplit ih => exact isChain_consGap rfl (ih sign term) c
  | case4 c cs op hop next rest hsplit hle ih => exact .cons_cons .term (ih (some op) next)

theorem isChain_scan (text : List Char) : (scan text).IsChain Piece.Follows := by
  unfold scan
  split
  · exact (isChain_scanRest none [] text).tail
  · exact isChain_scanRest none _ _

section

variable {text : List Char} {earlier later : List Piece}

/-- Only the first piece is a term without an operator. -/
theorem eq_nil_of_scan {term : List Char} (h : scan text = earlier ++ .term none term :: later) :
    earlier = [] := by
  have hchain := isChain_scan text
  rw [h] at hchain
  obtain rfl | ⟨front, last, rfl⟩ := List.eq_nil_or_concat' earlier
  · rfl
  · have hfollows := (List.isChain_append.mp hchain).2.2 last (by simp) _ rfl
    cases hfollows

/-- A gap that is not first comes directly behind a term. -/
theorem exists_term_before_gap {gap : List Char} (h : scan text = earlier ++ .gap gap :: later) :
    earlier = [] ∨ ∃ front sign term, earlier = front ++ [.term sign term] := by
  have hchain := isChain_scan text
  rw [h] at hchain
  obtain rfl | ⟨front, last, rfl⟩ := List.eq_nil_or_concat' earlier
  · exact .inl rfl
  · have hfollows := (List.isChain_append.mp hchain).2.2 last (by simp) _ rfl
    cases hfollows with
    | gap => exact .inr ⟨front, _, _, rfl⟩

/-- Behind a gap a term with its operator comes, or the end. -/
theorem exists_operator_behind_gap {gap : List Char}
    (h : scan text = earlier ++ .gap gap :: later) :
    later = [] ∨ ∃ op rest, later.flatMap Piece.text = Operator.toChar op :: rest := by
  have hchain := isChain_scan text
  rw [h] at hchain
  cases (List.isChain_append.mp hchain).2.1 with
  | singleton => exact .inl rfl
  | cons_cons hfollows hrest =>
      cases hfollows with
      | term => exact .inr ⟨_, _, List.flatMap_cons⟩

end

end DesignTokens
