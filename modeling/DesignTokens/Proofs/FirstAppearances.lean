import Mathlib.Data.List.Induction
import Mathlib.Data.List.Nodup
import Mathlib.Tactic.SplitIfs

set_option autoImplicit false

/-! # First appearances

`List.eraseDups` keeps the first appearance of everything in a list. What is added at the end
of a list matters only as far as it is new (`eraseDups_append_congr`), so a queue may hold
elements more than once (`eraseDups_append_cons_of_mem`, `eraseDups_append_filter`).
-/

namespace DesignTokens

variable {α : Type} [DecidableEq α] {xs ys : List α}

/-- One more element is one more first appearance, if it is new. -/
theorem eraseDups_concat (xs : List α) (x : α) :
    (xs ++ [x]).eraseDups = if x ∈ xs then xs.eraseDups else xs.eraseDups ++ [x] := by
  rw [List.eraseDups_append]
  by_cases h : x ∈ xs <;> simp [List.removeAll, List.eraseDups_cons, h]

theorem nodup_eraseDups (xs : List α) : xs.eraseDups.Nodup := by
  induction xs using List.reverseRecOn with
  | nil => exact List.nodup_nil
  | append_singleton xs x ih =>
      rw [eraseDups_concat]
      split_ifs with h
      · exact ih
      · have hnew : x ∉ xs.eraseDups := mt List.mem_eraseDups.mp h
        rw [← List.concat_eq_append]
        exact ih.concat hnew

theorem eraseDups_eq_nil_iff : xs.eraseDups = [] ↔ xs = [] := by
  cases xs with
  | nil => exact iff_of_true List.eraseDups_nil rfl
  | cons x xs => simp [List.eraseDups_cons]

/-- Only one thing appears in a list. -/
theorem eraseDups_eq_singleton_iff {x : α} :
    xs.eraseDups = [x] ↔ xs ≠ [] ∧ ∀ y ∈ xs, y = x := by
  constructor
  · intro h
    refine ⟨?_, fun y hy => ?_⟩
    · rintro rfl
      cases h
    · rw [← List.mem_eraseDups, h] at hy
      exact List.mem_singleton.mp hy
  · rintro ⟨hne, hall⟩
    obtain ⟨y, ys, rfl⟩ := List.exists_cons_of_ne_nil hne
    obtain ⟨rfl, hrest⟩ := List.forall_mem_cons.mp hall
    have hnone : (ys.filter fun z => !z == y) = [] := by
      refine List.filter_eq_nil_iff.mpr fun z hz => ?_
      simp [hrest z hz]
    rw [List.eraseDups_cons, hnone, List.eraseDups_nil]

theorem eraseDups_of_nodup (h : xs.Nodup) : xs.eraseDups = xs := by
  induction xs using List.reverseRecOn with
  | nil => rfl
  | append_singleton xs x ih =>
      rw [List.nodup_append] at h
      obtain ⟨hxs, -, hnew⟩ := h
      have hx : x ∉ xs := fun hmem => hnew x hmem x List.mem_cons_self rfl
      rw [eraseDups_concat, if_neg hx, ih hxs]

/-- Lists with the same first appearances still have them the same when both go on alike. -/
theorem eraseDups_append_congr (h : xs.eraseDups = ys.eraseDups) (zs : List α) :
    (xs ++ zs).eraseDups = (ys ++ zs).eraseDups := by
  have hmem : ∀ x, x ∈ xs ↔ x ∈ ys := by
    intro x
    rw [← List.mem_eraseDups, h, List.mem_eraseDups]
  have hrest : zs.removeAll xs = zs.removeAll ys := by
    refine List.filter_congr fun z _ => ?_
    simp [hmem z]
  rw [List.eraseDups_append, List.eraseDups_append, h, hrest]

/-- An element that appeared before may be skipped. -/
theorem eraseDups_append_cons_of_mem {x : α} (h : x ∈ xs) (ys : List α) :
    (xs ++ x :: ys).eraseDups = (xs ++ ys).eraseDups := by
  have hskip : (xs ++ [x]).eraseDups = xs.eraseDups := by
    rw [eraseDups_concat, if_pos h]
  have happend := eraseDups_append_congr hskip ys
  rwa [List.append_assoc, List.singleton_append] at happend

/-- Leaving out what appeared before changes no first appearance. -/
theorem eraseDups_append_filter {p : α → Bool} (h : ∀ y, p y = false → y ∈ xs) (ys : List α) :
    (xs ++ ys.filter p).eraseDups = (xs ++ ys).eraseDups := by
  have hrest : (ys.filter p).removeAll xs = ys.removeAll xs := by
    rw [List.removeAll, List.removeAll, List.filter_filter]
    refine List.filter_congr fun y _ => ?_
    cases hp : p y with
    | true => simp
    | false => simp [h y hp]
  rw [List.eraseDups_append, List.eraseDups_append, hrest]

/-- A front without repetitions is kept. -/
theorem isPrefix_eraseDups_append (h : xs.Nodup) (ys : List α) : xs <+: (xs ++ ys).eraseDups := by
  rw [List.eraseDups_append, eraseDups_of_nodup h]
  exact List.prefix_append _ _

end DesignTokens
