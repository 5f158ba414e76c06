import DesignTokens.Proofs.Lookup.Graph

set_option autoImplicit false

/-! # Filling a lookup table

The queue of `LookupTable.build` as a state machine: a table that is being filled and the
references that wait (`Filling`). A turn takes the first reference that waits and either
skips it, because it is stored, or stores the answer of the source and lets the references
in the answer wait (`Filling.Step`). A source is any relation of paths and answers here, so
it may have infinitely many answers and may answer one path differently at different times;
`build_eq_ok_iff` says that `build` runs this machine.

The invariant is `Filling.Covers`: references once met are stored or wait, and stored values
can be read. When nothing waits, the table is closed (`LookupTable.Fills.isReadable`).
-/

namespace DesignTokens

namespace LookupTable

theorem get?_eq_none_of_contains {table : LookupTable} {r : String}
    (h : table.contains r = false) : table.get? r = none := by
  simpa [contains] using h

/-- A raw value that was stored before stays. -/
theorem get?_insert_of_contains {table : LookupTable} {reference r : String} (raw : String)
    (h : table.contains r = true) : (table.insert reference raw).get? r = table.get? r := by
  obtain ⟨raw', hget⟩ := Option.isSome_iff_exists.mp h
  rw [get?_insert, hget, Option.some_or]

theorem get?_insert_self {table : LookupTable} {reference : String} (raw : String)
    (hnew : table.contains reference = false) :
    (table.insert reference raw).get? reference = some raw := by
  rw [get?_insert, get?_eq_none_of_contains hnew, if_pos rfl, Option.none_or]

end LookupTable

/-- A table that is being filled, and the references that wait. -/
structure Filling where
  table : LookupTable
  pending : List String

namespace Filling

/-- One turn of the queue; `answers path raw` says that the source may answer a path with a
raw value. -/
inductive Step (answers : String → String → Prop) : Filling → Filling → Prop
  | skip {table : LookupTable} {reference : String} {pending : List String}
      (hstored : table.contains reference = true) :
      Step answers ⟨table, reference :: pending⟩ ⟨table, pending⟩
  | store {table : LookupTable} {reference raw : String} {pending : List String}
      {e : Expression} (hnew : table.contains reference = false)
      (hanswer : answers (stripBraces reference) raw) (hparse : Expression.parse raw = .ok e) :
      Step answers ⟨table, reference :: pending⟩
        ⟨table.insert reference raw, pending ++ e.references.filter fun r => !table.contains r⟩

/-- A run of the queue. -/
abbrev Run (answers : String → String → Prop) : Filling → Filling → Prop :=
  Relation.ReflTransGen (Step answers)

/-- Nothing is stored, and the references of some expressions wait. -/
def start (expressions : List Expression) : Filling :=
  ⟨.empty, expressions.flatMap Expression.references⟩

/-- A reference is stored or waits. -/
def Knows (s : Filling) (r : String) : Prop := s.table.contains r = true ∨ r ∈ s.pending

/-- Nothing that was met is lost: references to begin with, and those in stored values, are
stored or wait. -/
structure Covers (s : Filling) (references : List String) : Prop where
  started : ∀ r ∈ references, s.Knows r
  readable : ∀ r, s.table.contains r = true → s.table.IsReadable r
  nested : ∀ r r', s.table.Refers r r' → s.Knows r'

variable {answers : String → String → Prop} {s s' : Filling}

theorem start_covers (expressions : List Expression) :
    (start expressions).Covers (expressions.flatMap Expression.references) where
  started _ hr := Or.inr hr
  readable r hr := by cases hr
  nested r r' hr := by
    obtain ⟨raw, e, hget, -⟩ := hr
    cases hget

/-- What is known stays known: a reference leaves the queue only when it is stored. -/
theorem Step.knows (hstep : Step answers s s') {r : String} (h : s.Knows r) : s'.Knows r := by
  cases hstep with
  | @skip table reference pending hstored =>
      rcases h with h | h
      · exact Or.inl h
      · rcases List.mem_cons.mp h with rfl | h
        · exact Or.inl hstored
        · exact Or.inr h
  | @store table reference raw pending e hnew hanswer hparse =>
      have hself : (table.insert reference raw).contains reference = true := by
        rw [LookupTable.contains_insert, decide_eq_true rfl, Bool.or_true]
      rcases h with h | h
      · refine Or.inl ?_
        show (table.insert reference raw).contains r = true
        rw [LookupTable.contains_insert, h, Bool.true_or]
      · rcases List.mem_cons.mp h with rfl | h
        · exact Or.inl hself
        · exact Or.inr (List.mem_append_left _ h)

/-- What the table refers to after a value was stored: what it referred to before, and the
references in that value. -/
theorem refers_insert {table : LookupTable} {reference raw : String} {e : Expression}
    (hnew : table.contains reference = false) (hparse : Expression.parse raw = .ok e)
    {r r' : String} (h : (table.insert reference raw).Refers r r') :
    table.Refers r r' ∨ r = reference ∧ r' ∈ e.references := by
  by_cases hr : r = reference
  · subst hr
    exact Or.inr ⟨rfl, (LookupTable.refers_iff (LookupTable.get?_insert_self raw hnew) hparse).mp h⟩
  · obtain ⟨raw', e', hget, hparse', hmem⟩ := h
    rw [LookupTable.get?_insert, if_neg hr, Option.or_none] at hget
    exact Or.inl ⟨raw', e', hget, hparse', hmem⟩

/-- A turn of the queue keeps the invariant. -/
theorem Step.covers {references : List String} (hstep : Step answers s s')
    (h : s.Covers references) : s'.Covers references := by
  have hstarted : ∀ r ∈ references, s'.Knows r := fun r hr => hstep.knows (h.started r hr)
  have hkept : ∀ r r', s.table.Refers r r' → s'.Knows r' := fun r r' hr =>
    hstep.knows (h.nested r r' hr)
  cases hstep with
  | skip hstored => exact ⟨hstarted, h.readable, hkept⟩
  | @store table reference raw pending e hnew hanswer hparse =>
      refine ⟨hstarted, ?_, ?_⟩
      · intro r hr
        -- what is stored was so before, except for the answer just read
        by_cases hsame : r = reference
        · subst hsame
          exact ⟨raw, e, LookupTable.get?_insert_self raw hnew, hparse⟩
        · have hold : table.contains r = true := by
            simpa [LookupTable.contains_insert, hsame] using hr
          obtain ⟨raw', e', hget, hparse'⟩ := h.readable r hold
          exact ⟨raw', e', by rw [LookupTable.get?_insert_of_contains raw hold, hget], hparse'⟩
      · intro r r' hr
        rcases refers_insert hnew hparse hr with hr | ⟨-, hmem⟩
        · exact hkept r r' hr
        · -- a nested reference is stored already, or it was just appended
          by_cases hstored : table.contains r' = true
          · refine Or.inl ?_
            show (table.insert reference raw).contains r' = true
            rw [LookupTable.contains_insert, hstored, Bool.true_or]
          · refine Or.inr (List.mem_append_right _ (List.mem_filter.mpr ⟨hmem, ?_⟩))
            simpa using hstored

/-- A run of the queue keeps the invariant. -/
theorem Run.covers {references : List String} (hrun : Run answers s s')
    (h : s.Covers references) : s'.Covers references := by
  induction hrun with
  | refl => exact h
  | tail _ hstep ih => exact hstep.covers ih

end Filling

/-- Building a table for some expressions can end with this table, if the source answers as
`answers` allows. -/
def LookupTable.Fills (answers : String → String → Prop) (expressions : List Expression)
    (table : LookupTable) : Prop :=
  Filling.Run answers (.start expressions) ⟨table, []⟩

/-- In a table that building ended with, everything that one of the expressions reaches is
stored and can be read. -/
theorem LookupTable.Fills.isReadable {answers : String → String → Prop}
    {expressions : List Expression} {table : LookupTable} (h : Fills answers expressions table)
    {e : Expression} (he : e ∈ expressions) {r : String} (hr : table.Reaches e r) :
    table.IsReadable r := by
  have hcovers := Filling.Run.covers h (Filling.start_covers expressions)
  have hstored : ∀ r', Filling.Knows ⟨table, []⟩ r' → table.contains r' = true := by
    rintro r' (h | h)
    · exact h
    · cases h
  -- nothing waits, so no edge leaves what is stored
  have hclosed : table.IsClosed fun r => table.contains r = true := by
    intro r r' _ hrefers
    exact hstored r' (hcovers.nested r r' hrefers)
  refine hcovers.readable r (hclosed.of_reaches (fun r₀ hr₀ => ?_) hr)
  exact hstored r₀ (hcovers.started r₀ (List.mem_flatMap.mpr ⟨e, he, hr₀⟩))

/-- A source answers a path with a raw value. -/
def Source.Answers (source : Source) (path raw : String) : Prop := source.raw? path = some raw

instance (source : Source) (path raw : String) : Decidable (source.Answers path raw) :=
  inferInstanceAs (Decidable (source.raw? path = some raw))

theorem LookupTable.run_of_buildFrom {source : Source} {references : List String}
    {table table' : LookupTable} {pending : List String}
    {known : ∀ r ∈ pending, r ∈ source.candidates references}
    (h : (buildFrom source references table pending known).outcome.result = .ok table') :
    Filling.Run source.Answers ⟨table, pending⟩ ⟨table', []⟩ := by
  fun_induction buildFrom source references table pending known with
  | case1 table =>
      cases h
      exact .refl
  | case2 table reference pending known hstored _ ih => exact .head (.skip hstored) (ih h)
  | case3 => cases h
  | case4 => cases h
  | case5 table reference pending known hnew path raw hraw e hparse found _ _ _ ih =>
      exact .head (.store (Bool.eq_false_iff.mpr hnew) hraw hparse) (ih h)

/-- A turn of the queue keeps to the candidates of the source. -/
theorem Filling.Step.candidates {source : Source} {references : List String} {s s' : Filling}
    (hstep : Step source.Answers s s') (known : ∀ r ∈ s.pending, r ∈ source.candidates references) :
    ∀ r ∈ s'.pending, r ∈ source.candidates references := by
  cases hstep with
  | skip hstored =>
      intro r hr
      exact known r (List.mem_cons_of_mem _ hr)
  | store hnew hanswer hparse =>
      intro r hr
      rcases List.mem_append.mp hr with hr | hr
      · exact known r (List.mem_cons_of_mem _ hr)
      · exact Source.mem_candidates_of_raw hanswer hparse (List.mem_filter.mp hr).1

/-- A turn of the queue does not change what building ends with. -/
theorem LookupTable.result_buildFrom_of_step {source : Source} {references : List String}
    {s s' : Filling} (hstep : Filling.Step source.Answers s s')
    (known : ∀ r ∈ s.pending, r ∈ source.candidates references)
    (known' : ∀ r ∈ s'.pending, r ∈ source.candidates references) :
    (buildFrom source references s.table s.pending known).outcome.result =
      (buildFrom source references s'.table s'.pending known').outcome.result := by
  cases hstep with
  | skip hstored =>
      rw [buildFrom.eq_def]
      simp only [hstored, dif_pos]
  | store hnew hanswer hparse =>
      rw [buildFrom.eq_def]
      simp only [hnew, Bool.false_eq_true, dif_neg, not_false_eq_true]
      split
      · rename_i hraw
        rw [hanswer] at hraw
        cases hraw
      · rename_i raw' hraw
        rw [hanswer, Option.some.injEq] at hraw
        subst hraw
        split
        · rename_i hcause
          rw [hparse] at hcause
          cases hcause
        · rename_i e' he'
          rw [hparse, Except.ok.injEq] at he'
          subst he'
          rfl

theorem LookupTable.result_buildFrom_of_run {source : Source} {references : List String}
    {s : Filling} {table' : LookupTable} (hrun : Filling.Run source.Answers s ⟨table', []⟩)
    (known : ∀ r ∈ s.pending, r ∈ source.candidates references) :
    (buildFrom source references s.table s.pending known).outcome.result = .ok table' := by
  induction hrun using Relation.ReflTransGen.head_induction_on with
  | refl =>
      rw [buildFrom]
      rfl
  | head hstep _ ih =>
      rw [result_buildFrom_of_step hstep known (hstep.candidates known)]
      exact ih (hstep.candidates known)

/-- The tables that `build` gives are those that filling ends with. -/
theorem LookupTable.build_eq_ok_iff {expressions : List Expression} {source : Source}
    {table : LookupTable} :
    (build expressions source).outcome.result = .ok table ↔
      Fills source.Answers expressions table := by
  constructor
  · intro h
    exact run_of_buildFrom h
  · intro h
    exact result_buildFrom_of_run h _

end DesignTokens
