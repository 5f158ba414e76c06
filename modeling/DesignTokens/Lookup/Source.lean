import DesignTokens.Expression.Basic

set_option autoImplicit false

/-! # Sources of raw values

A source answers paths with raw values. It has finitely many answers, so only finitely many
references can be met by following them: `Source.candidates` lists them all.
-/

namespace DesignTokens

/-- Answers to reference paths, given without braces. -/
structure Source where
  raw? : String → Option String
  /-- All answers, possibly with others. -/
  texts : List String
  mem_texts : ∀ {path raw : String}, raw? path = some raw → raw ∈ texts

/-- The references in a raw value; none if it is not an expression. -/
def referencesIn (raw : String) : List String :=
  match Expression.parse raw with
  | .ok e => e.references
  | .error _ => []

namespace Source

/-- The source that answers from a list of paths and raw values; the first entry of a path
counts. -/
def ofList (entries : List (String × String)) : Source where
  raw? path := entries.lookup path
  texts := entries.map Prod.snd
  mem_texts := by
    intro path raw h
    induction entries with
    | nil => simp at h
    | cons entry entries ih =>
      rw [List.lookup_cons] at h
      split at h
      · simp only [Option.some.injEq] at h
        simp [← h]
      · exact List.mem_cons_of_mem _ (ih h)

/-- Every reference that can be met from `start` on. -/
def candidates (source : Source) (start : List String) : List String :=
  start ++ source.texts.flatMap referencesIn

theorem mem_candidates_of_start {source : Source} {start : List String} {r : String}
    (h : r ∈ start) : r ∈ source.candidates start :=
  List.mem_append_left _ h

/-- The references of an answer belong to the candidates. -/
theorem mem_candidates_of_raw {source : Source} {start : List String} {path raw : String}
    {e : Expression} (hraw : source.raw? path = some raw) (hparse : Expression.parse raw = .ok e)
    {r : String} (h : r ∈ e.references) : r ∈ source.candidates start := by
  apply List.mem_append_right
  rw [List.mem_flatMap]
  exact ⟨raw, source.mem_texts hraw, by simpa [referencesIn, hparse] using h⟩

end Source

end DesignTokens
