import DesignTokens.Traced
import Mathlib.Data.List.Perm.Basic

set_option autoImplicit false

/-! # Traversals

What taking one step for each member of a list gives: `except_mapM_eq_ok_iff` if all steps
succeed, `except_mapM_eq_error_iff` if one fails. A log does not change the result, and steps
that succeed may be taken in any order (`Traced.exists_mapM_of_perm`).
-/

namespace DesignTokens

/-- A traversal succeeds exactly when each of its steps does. -/
theorem except_mapM_eq_ok_iff {ε α β : Type} {f : α → Except ε β} {xs : List α} {ys : List β} :
    xs.mapM f = .ok ys ↔ List.Forall₂ (fun x y => f x = .ok y) xs ys := by
  induction xs generalizing ys with
  | nil => cases ys <;> simp [pure, Except.pure]
  | cons x xs ih =>
      rw [List.mapM_cons, List.forall₂_cons_left_iff]
      constructor
      · intro h
        obtain ⟨y, hy, h⟩ := except_bind_eq_ok_iff.mp h
        obtain ⟨rest, hrest, h⟩ := except_bind_eq_ok_iff.mp h
        cases h
        exact ⟨y, rest, hy, ih.mp hrest, rfl⟩
      · rintro ⟨y, rest, hy, hrest, rfl⟩
        exact except_bind_eq_ok_iff.mpr
          ⟨y, hy, except_bind_eq_ok_iff.mpr ⟨rest, ih.mpr hrest, rfl⟩⟩

/-- A traversal fails with the error of the first step that does. -/
theorem except_mapM_eq_error_iff {ε α β : Type} {f : α → Except ε β} {xs : List α} {error : ε} :
    xs.mapM f = .error error ↔ ∃ before x after, xs = before ++ x :: after ∧
      (∀ y ∈ before, ∃ b, f y = .ok b) ∧ f x = .error error := by
  induction xs with
  | nil =>
      refine iff_of_false (by rintro ⟨⟩) ?_
      rintro ⟨before, x, after, hnil, -⟩
      cases before <;> cases hnil
  | cons x xs ih =>
      rw [List.mapM_cons]
      constructor
      · intro h
        cases hx : f x with
        | error e =>
            rw [hx] at h
            cases h
            exact ⟨[], x, xs, rfl, List.forall_mem_nil _, hx⟩
        | ok b =>
            cases hxs : xs.mapM f with
            | ok ys =>
                rw [hx, hxs] at h
                cases h
            | error e =>
                rw [hx, hxs] at h
                cases h
                obtain ⟨before, y, after, rfl, hbefore, hy⟩ := ih.mp hxs
                exact ⟨x :: before, y, after, rfl,
                  List.forall_mem_cons.mpr ⟨⟨b, hx⟩, hbefore⟩, hy⟩
      · rintro ⟨before, y, after, hxs, hbefore, hy⟩
        cases before with
        | nil =>
            obtain ⟨rfl, -⟩ := List.cons.inj hxs
            rw [hy]
            rfl
        | cons z before =>
            obtain ⟨rfl, rfl⟩ := List.cons.inj hxs
            obtain ⟨⟨b, hb⟩, hbefore⟩ := List.forall_mem_cons.mp hbefore
            rw [hb, ih.mpr ⟨before, y, after, rfl, hbefore, hy⟩]
            rfl

namespace Traced

variable {ε α β : Type} {f : α → Traced ε β} {xs xs' : List α} {ys : List β}

/-- The log of a traversal does not change its result. -/
theorem result_mapM (f : α → Traced ε β) (xs : List α) :
    (xs.mapM f).result = xs.mapM fun x => (f x).result := by
  induction xs with
  | nil => rfl
  | cons x xs ih =>
      rw [List.mapM_cons, List.mapM_cons, result_bind]
      simp only [result_bind, ih]
      rfl

theorem result_mapM_eq_ok_iff :
    (xs.mapM f).result = .ok ys ↔ List.Forall₂ (fun x y => (f x).result = .ok y) xs ys := by
  rw [result_mapM, except_mapM_eq_ok_iff]

theorem result_mapM_eq_error_iff {error : ε} :
    (xs.mapM f).result = .error error ↔ ∃ before x after, xs = before ++ x :: after ∧
      (∀ y ∈ before, ∃ b, (f y).result = .ok b) ∧ (f x).result = .error error := by
  rw [result_mapM, except_mapM_eq_error_iff]

/-- The steps of a traversal may be taken in any order. -/
theorem exists_mapM_of_perm (hperm : xs.Perm xs') (h : (xs.mapM f).result = .ok ys) :
    ∃ ys', (xs'.mapM f).result = .ok ys' ∧ ys.Perm ys' := by
  obtain ⟨ys', hys', hsame⟩ :=
    List.perm_comp_forall₂ hperm.symm (result_mapM_eq_ok_iff.mp h)
  exact ⟨ys', result_mapM_eq_ok_iff.mpr hys', hsame.symm⟩

end Traced

end DesignTokens
