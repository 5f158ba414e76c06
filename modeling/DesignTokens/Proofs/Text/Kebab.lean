import DesignTokens.Text.Kebab
import Mathlib.Tactic.SplitIfs

set_option autoImplicit false

/-! # Laws of kebab case

Kebab case changes no text without capitals (`kebab_eq_self`). It only adds dashes and turns
capitals into small letters, so without its dashes a name is the same but for capitals
(`filter_kebabChars`).
-/

namespace DesignTokens

theorem toNat_of_isCapital {c : Char} (h : isCapital c = true) :
    65 ≤ c.toNat ∧ c.toNat ≤ 90 := by
  simp only [isCapital, Bool.and_eq_true, decide_eq_true_eq, Char.le_def] at h
  exact h

/-- A small letter is no capital. -/
theorem isCapital_lowerChar (c : Char) : isCapital (lowerChar c) = false := by
  unfold lowerChar
  split_ifs with hcapital
  · have hcodes : ∀ n ≤ 90, 65 ≤ n → isCapital (Char.ofNat (n + 32)) = false := by decide
    obtain ⟨hleast, hmost⟩ := toNat_of_isCapital hcapital
    exact hcodes _ hmost hleast
  · exact Bool.eq_false_iff.mpr hcapital

theorem lowerChar_eq_dash_iff {c : Char} : lowerChar c = '-' ↔ c = '-' := by
  unfold lowerChar
  split_ifs with hcapital
  · have hcodes : ∀ n ≤ 90, 65 ≤ n → Char.ofNat (n + 32) ≠ '-' := by decide
    obtain ⟨hleast, hmost⟩ := toNat_of_isCapital hcapital
    refine iff_of_false (hcodes _ hmost hleast) ?_
    rintro rfl
    exact absurd hcapital (by decide)
  · exact Iff.rfl

theorem kebabChars_eq_self {cs : List Char} (h : ∀ c ∈ cs, isCapital c = false)
    (atStart : Bool) : kebabChars atStart cs = cs := by
  induction cs generalizing atStart with
  | nil => rw [kebabChars]
  | cons c cs ih =>
      obtain ⟨hc, hcs⟩ := List.forall_mem_cons.mp h
      rw [kebabChars, if_neg (by simp [hc]), ih hcs]

/-- A text without capitals is in kebab case. -/
theorem kebab_eq_self {name : String} (h : ∀ c ∈ name.toList, isCapital c = false) :
    kebab name = name := by
  rw [kebab, kebabChars_eq_self h, String.ofList_toList]

theorem filter_map_lowerChar (cs : List Char) :
    (cs.map lowerChar).filter (fun c => c ≠ '-') =
      (cs.filter fun c => c ≠ '-').map lowerChar := by
  rw [List.filter_map]
  congr 1
  refine List.filter_congr fun c _ => ?_
  simp [lowerChar_eq_dash_iff]

/-- Without its dashes, a name in kebab case has the characters of the name, capitals as small
letters. -/
theorem filter_kebabChars (atStart : Bool) (cs : List Char) :
    (kebabChars atStart cs).filter (fun c => c ≠ '-') =
      (cs.filter fun c => c ≠ '-').map lowerChar := by
  fun_induction kebabChars atStart cs with
  | case1 => rfl
  | case2 atStart c cs hcapital run size ih =>
      have hmark : (if atStart = true then [] else ['-']).filter (fun c => c ≠ '-') = [] := by
        cases atStart <;> rfl
      rw [List.filter_append, List.filter_append, hmark, List.nil_append, filter_map_lowerChar, ih,
        ← List.map_append, ← List.filter_append, List.take_append_drop]
  | case3 atStart c cs hcapital ih =>
      by_cases hdash : c = '-'
      · rw [List.filter_cons_of_neg (by simpa using hdash), ih,
          List.filter_cons_of_neg (by simpa using hdash)]
      · have hlower : lowerChar c = c := if_neg hcapital
        rw [List.filter_cons_of_pos (by simpa using hdash), ih,
          List.filter_cons_of_pos (by simpa using hdash), List.map_cons, hlower]

end DesignTokens
