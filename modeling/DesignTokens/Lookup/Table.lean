import DesignTokens.Evaluation.Error
import DesignTokens.Lookup.Source

set_option autoImplicit false

/-! # Lookup tables

A lookup table holds the raw value of every reference that evaluation can meet.
`LookupTable.build` starts from the references of some expressions, asks the source for
each once, and goes on with the references in the answers, in the order of their discovery.
It ends because every stored reference is one fewer of the candidates of the source.
-/

namespace DesignTokens

/-- Raw values by reference, in the order they were stored. References are written with
their braces, raw values as the source gave them. -/
structure LookupTable where
  entries : List (String × String)
  deriving DecidableEq, Repr

namespace LookupTable

/-- The table without entries. -/
def empty : LookupTable := ⟨[]⟩

/-- The raw value of a reference. -/
def get? (table : LookupTable) (reference : String) : Option String :=
  table.entries.lookup reference

/-- Whether a reference is stored. -/
def contains (table : LookupTable) (reference : String) : Bool :=
  (table.get? reference).isSome

/-- The number of stored references. -/
def size (table : LookupTable) : Nat := table.entries.length

/-- Whether nothing is stored. -/
def isEmpty (table : LookupTable) : Bool := table.entries.isEmpty

/-- Stores a raw value after the others. -/
def insert (table : LookupTable) (reference raw : String) : LookupTable :=
  ⟨table.entries ++ [(reference, raw)]⟩

/-- The references of `candidates` that are not stored. -/
def missing (table : LookupTable) (candidates : List String) : List String :=
  candidates.filter fun r => !table.contains r

theorem get?_insert (table : LookupTable) (reference raw other : String) :
    (table.insert reference raw).get? other =
      (table.get? other).or (if other = reference then some raw else none) := by
  simp only [get?, insert, List.lookup_append, List.lookup_cons, List.lookup_nil]
  congr 1
  by_cases h : other = reference
  · simp [h]
  · simp [h, beq_eq_false_iff_ne.mpr h]

theorem contains_insert (table : LookupTable) (reference raw other : String) :
    (table.insert reference raw).contains other =
      (table.contains other || decide (other = reference)) := by
  rw [contains, contains, get?_insert]
  by_cases h : other = reference <;> simp [h]

/-- Storing a missing reference leaves fewer of them. -/
theorem length_missing_insert_lt {table : LookupTable} {candidates : List String}
    {reference : String} (hmem : reference ∈ candidates)
    (hnew : table.contains reference = false) (raw : String) :
    ((table.insert reference raw).missing candidates).length <
      (table.missing candidates).length := by
  have hfilter : (table.insert reference raw).missing candidates =
      (table.missing candidates).filter fun r => decide (r ≠ reference) := by
    unfold missing
    rw [List.filter_filter]
    apply List.filter_congr
    intro r _
    rw [contains_insert]
    by_cases h : r = reference <;> simp [h]
  rw [hfilter, List.length_filter_lt_length_iff_exists]
  exact ⟨reference, by simp [missing, hmem, hnew], by simp⟩

/-- What building a table asked of the source, and how it ended. -/
structure Build where
  /-- The paths asked of the source, in order. -/
  asked : List String
  /-- The table, or why there is none. -/
  outcome : Traced EvalError LookupTable

/-- Continues with a table and the references that wait, all of them among the candidates. -/
def buildFrom (source : Source) (start : List String) (table : LookupTable)
    (pending : List String) (known : ∀ r ∈ pending, r ∈ source.candidates start) : Build :=
  match pending with
  | [] => ⟨[], pure table⟩
  | reference :: pending =>
    if hstored : table.contains reference then
      buildFrom source start table pending fun r h => known r (List.mem_cons_of_mem _ h)
    else
      let path := stripBraces reference
      match hraw : source.raw? path with
      | none => ⟨[path], .fail (.referenceNotFound reference)⟩
      | some raw =>
        match hparse : Expression.parse raw with
        | .error cause =>
          ⟨[path], ⟨[.resolvedReference reference raw], .error (.unreadable cause)⟩⟩
        | .ok e =>
          let found := e.references.filter fun r => !table.contains r
          have hless := length_missing_insert_lt (known reference List.mem_cons_self)
            (Bool.eq_false_iff.mpr hstored) raw
          let next := buildFrom source start (table.insert reference raw) (pending ++ found) <| by
            intro r h
            rcases List.mem_append.mp h with h | h
            · exact known r (List.mem_cons_of_mem _ h)
            · exact Source.mem_candidates_of_raw hraw hparse (List.mem_filter.mp h).1
          ⟨path :: next.asked,
            ⟨.resolvedReference reference raw :: e.warnings ++ next.outcome.events,
              next.outcome.result⟩⟩
termination_by ((table.missing (source.candidates start)).length, pending.length)
decreasing_by
  · exact Prod.Lex.right _ (Nat.lt_succ_self _)
  · exact Prod.Lex.left _ _ hless

/-- Builds the table for the references of some expressions and of every raw value they
lead to. -/
def build (expressions : List Expression) (source : Source) : Build :=
  let start := expressions.flatMap Expression.references
  buildFrom source start empty start fun _ h => Source.mem_candidates_of_start h

end LookupTable

end DesignTokens
