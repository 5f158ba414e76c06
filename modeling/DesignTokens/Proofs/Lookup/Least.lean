import DesignTokens.Proofs.Lookup.Entries
import DesignTokens.Proofs.Lookup.Filling

set_option autoImplicit false

/-! # The least lookup table

The references that a table for some expressions needs are the least set that holds the
expressions' own and, with a reference that is answered by an expression, the references in
the answer (`Source.Needs`). `build_least` says that building stores exactly these, each
with its answer, and fails exactly when one of them has no answer that can be read. So
neither depends on the order of the expressions or on how often they occur.

That nothing is missing is `Filling.Covers`; that nothing is superfluous is the second
invariant of the queue, `Filling.Within`. A failure is traced back to the reference that was
just taken from the queue (`exists_unanswered_of_buildFrom`).
-/

namespace DesignTokens

namespace LookupTable

/-- The stored references. -/
def stored (table : LookupTable) : List String := table.entries.map Prod.fst

theorem contains_iff_mem_stored {table : LookupTable} {r : String} :
    table.contains r = true ↔ r ∈ table.stored :=
  lookup_isSome_iff

end LookupTable

/-- The references that a lookup table for some expressions needs. -/
inductive Source.Needs (source : Source) (expressions : List Expression) : String → Prop
  /-- The expressions' own references. -/
  | own {e : Expression} {r : String} (he : e ∈ expressions) (hr : r ∈ e.references) :
      Needs source expressions r
  /-- The references in the answer to a reference, if the answer is an expression. -/
  | nested {r raw r' : String} {e : Expression} (hneeds : Needs source expressions r)
      (hanswer : source.Answers (stripBraces r) raw) (hparse : Expression.parse raw = .ok e)
      (hr' : r' ∈ e.references) : Needs source expressions r'

/-- A reference has an answer that can be read. -/
def Source.IsAnswered (source : Source) (r : String) : Prop :=
  ∃ raw e, source.Answers (stripBraces r) raw ∧ Expression.parse raw = .ok e

namespace Source.Needs

variable {source source' : Source} {expressions expressions' : List Expression}

/-- What is needed depends on the answers and on which expressions there are. -/
theorem mono (hraw : source.raw? = source'.raw?) (hmem : ∀ e ∈ expressions, e ∈ expressions')
    {r : String} (h : source.Needs expressions r) : source'.Needs expressions' r := by
  induction h with
  | own he hr => exact .own (hmem _ he) hr
  | nested _ hanswer hparse hr' ih =>
      rw [Answers, hraw] at hanswer
      exact .nested ih hanswer hparse hr'

end Source.Needs

/-! ## Nothing superfluous -/

namespace Filling

/-- Only what is needed was met, stored values are answers, and nothing is stored twice. -/
structure Within (s : Filling) (source : Source) (expressions : List Expression) : Prop where
  needed : ∀ r, s.Knows r → source.Needs expressions r
  answered : ∀ r raw, s.table.get? r = some raw → source.Answers (stripBraces r) raw
  distinct : HasDistinctKeys s.table.entries

variable {source : Source} {expressions : List Expression} {s s' : Filling}

theorem start_within (source : Source) (expressions : List Expression) :
    (start expressions).Within source expressions where
  needed r hr := by
    rcases hr with hr | hr
    · cases hr
    · obtain ⟨e, he, hr⟩ := List.mem_flatMap.mp hr
      exact .own he hr
  answered r raw hget := by cases hget
  distinct := List.nodup_nil

/-- A turn of the queue keeps to what is needed. -/
theorem Step.within (hstep : Step source.Answers s s') (h : s.Within source expressions) :
    s'.Within source expressions := by
  cases hstep with
  | @skip table reference pending hstored =>
      refine ⟨fun r hr => h.needed r ?_, h.answered, h.distinct⟩
      rcases hr with hr | hr
      · exact Or.inl hr
      · exact Or.inr (List.mem_cons_of_mem _ hr)
  | @store table reference raw pending e hnew hanswer hparse =>
      have hreference : source.Needs expressions reference :=
        h.needed reference (Or.inr List.mem_cons_self)
      refine ⟨?_, ?_, ?_⟩
      · intro r hr
        rcases hr with hr | hr
        · -- the reference that was just stored, or one stored before
          have hr : (table.insert reference raw).contains r = true := hr
          rw [LookupTable.contains_insert, Bool.or_eq_true, decide_eq_true_eq] at hr
          rcases hr with hr | rfl
          · exact h.needed r (Or.inl hr)
          · exact hreference
        · rcases List.mem_append.mp hr with hr | hr
          · exact h.needed r (Or.inr (List.mem_cons_of_mem _ hr))
          · exact .nested hreference hanswer hparse (List.mem_filter.mp hr).1
      · intro r raw' hget
        by_cases hsame : r = reference
        · subst hsame
          rw [LookupTable.get?_insert_self raw hnew, Option.some.injEq] at hget
          rwa [← hget]
        · rw [LookupTable.get?_insert, if_neg hsame, Option.or_none] at hget
          exact h.answered r raw' hget
      · have hnot : reference ∉ table.entries.map Prod.fst := by
          rw [← lookup_isSome_iff]
          exact Bool.eq_false_iff.mp hnew
        show ((table.entries ++ [(reference, raw)]).map Prod.fst).Nodup
        rw [List.map_append, List.map_singleton, ← List.concat_eq_append]
        exact h.distinct.concat hnot

theorem Run.within (hrun : Run source.Answers s s') (h : s.Within source expressions) :
    s'.Within source expressions := by
  induction hrun with
  | refl => exact h
  | tail _ hstep ih => exact hstep.within ih

end Filling

/-! ## What is built -/

namespace LookupTable

variable {source : Source} {expressions : List Expression} {table : LookupTable}

theorem within_of_build (h : (build expressions source).outcome.result = .ok table) :
    Filling.Within ⟨table, []⟩ source expressions :=
  Filling.Run.within (build_eq_ok_iff.mp h) (Filling.start_within source expressions)

theorem covers_of_build (h : (build expressions source).outcome.result = .ok table) :
    Filling.Covers ⟨table, []⟩ (expressions.flatMap Expression.references) :=
  Filling.Run.covers (build_eq_ok_iff.mp h) (Filling.start_covers expressions)

/-- A table that was built has what is needed, and nothing else. -/
theorem contains_iff_needs (h : (build expressions source).outcome.result = .ok table)
    {r : String} : table.contains r = true ↔ source.Needs expressions r := by
  have hwithin := within_of_build h
  have hcovers := covers_of_build h
  constructor
  · intro hstored
    exact hwithin.needed r (Or.inl hstored)
  · intro hneeds
    -- nothing waits any more
    have hstored : ∀ r', Filling.Knows ⟨table, []⟩ r' → table.contains r' = true := by
      rintro r' (hr' | hr')
      · exact hr'
      · cases hr'
    induction hneeds with
    | own he hr => exact hstored _ (hcovers.started _ (List.mem_flatMap.mpr ⟨_, he, hr⟩))
    | @nested r raw r' e _ hanswer hparse hr' ih =>
        -- the stored value is the answer, so the table refers to what the answer holds
        obtain ⟨stored, hget⟩ := Option.isSome_iff_exists.mp ih
        have hsame : source.Answers (stripBraces r) stored := hwithin.answered r stored hget
        rw [Source.Answers, hanswer, Option.some.injEq] at hsame
        subst hsame
        exact hstored r' (hcovers.nested r r' ⟨raw, e, hget, hparse, hr'⟩)

/-- A table that was built holds the answers of the source. -/
theorem get?_eq_some_iff (h : (build expressions source).outcome.result = .ok table)
    {r raw : String} :
    table.get? r = some raw ↔
      source.Needs expressions r ∧ source.Answers (stripBraces r) raw := by
  have hwithin := within_of_build h
  constructor
  · intro hget
    refine ⟨(contains_iff_needs h).mp ?_, hwithin.answered r raw hget⟩
    exact Option.isSome_iff_exists.mpr ⟨raw, hget⟩
  · rintro ⟨hneeds, hanswer⟩
    obtain ⟨stored, hget⟩ := Option.isSome_iff_exists.mp ((contains_iff_needs h).mpr hneeds)
    have hsame : source.Answers (stripBraces r) stored := hwithin.answered r stored hget
    rw [Source.Answers, hanswer] at hsame
    rw [hget, ← hsame]

/-- Building fails at a needed reference without an answer that can be read. -/
theorem exists_unanswered_of_buildFrom {start : List String} {pending : List String}
    {known : ∀ r ∈ pending, r ∈ source.candidates start} {error : EvalError}
    (hneeds : ∀ r ∈ pending, source.Needs expressions r)
    (h : (buildFrom source start table pending known).outcome.result = .error error) :
    ∃ r, source.Needs expressions r ∧ ¬source.IsAnswered r := by
  fun_induction buildFrom source start table pending known with
  | case1 => cases h
  | case2 table reference pending known hstored _ ih =>
      exact ih (fun r hr => hneeds r (List.mem_cons_of_mem _ hr)) h
  | case3 table reference pending known hnew path hraw =>
      refine ⟨reference, hneeds reference List.mem_cons_self, ?_⟩
      rintro ⟨raw, e, hanswer, -⟩
      rw [Source.Answers, hraw] at hanswer
      cases hanswer
  | case4 table reference pending known hnew path raw hraw cause hparse =>
      refine ⟨reference, hneeds reference List.mem_cons_self, ?_⟩
      rintro ⟨raw', e, hanswer, hparse'⟩
      rw [Source.Answers, hraw, Option.some.injEq] at hanswer
      subst hanswer
      rw [hparse] at hparse'
      cases hparse'
  | case5 table reference pending known hnew path raw hraw e hparse found _ _ _ ih =>
      refine ih (fun r hr => ?_) h
      rcases List.mem_append.mp hr with hr | hr
      · exact hneeds r (List.mem_cons_of_mem _ hr)
      · have hreference := hneeds reference List.mem_cons_self
        exact .nested hreference hraw hparse (List.mem_filter.mp hr).1

/-- The first reference without an answer is the one that is reported, if those before it
have answers that can be read. -/
theorem result_buildFrom_missing {start before after : List String} {reference : String}
    {known : ∀ r ∈ before ++ reference :: after, r ∈ source.candidates start}
    (hbefore : ∀ r ∈ before, source.IsAnswered r) (hnew : table.contains reference = false)
    (hmissing : source.raw? (stripBraces reference) = none) :
    (buildFrom source start table (before ++ reference :: after) known).outcome.result =
      .error (.referenceNotFound reference) := by
  induction before generalizing table after with
  | nil =>
      show (buildFrom source start table (reference :: after) known).outcome.result = _
      rw [buildFrom.eq_def]
      simp only [hnew, Bool.false_eq_true, dif_neg, not_false_eq_true]
      split
      · rfl
      · rename_i raw hraw
        rw [hmissing] at hraw
        cases hraw
  | cons first before ih =>
      have hrest : ∀ r ∈ before, source.IsAnswered r := fun r hr =>
        hbefore r (List.mem_cons_of_mem _ hr)
      by_cases hstored : table.contains first = true
      · have hstep : Filling.Step source.Answers ⟨table, first :: (before ++ reference :: after)⟩
            ⟨table, before ++ reference :: after⟩ := .skip hstored
        refine (result_buildFrom_of_step hstep known (hstep.candidates known)).trans ?_
        exact ih hrest hnew
      · obtain ⟨raw, e, hanswer, hparse⟩ := hbefore first List.mem_cons_self
        have hstep : Filling.Step source.Answers ⟨table, first :: (before ++ reference :: after)⟩
            ⟨table.insert first raw, (before ++ reference :: after) ++
              e.references.filter fun r => !table.contains r⟩ :=
          .store (Bool.eq_false_iff.mpr hstored) hanswer hparse
        -- what has an answer is not the reference without one
        have hne : reference ≠ first := by
          rintro rfl
          rw [Source.Answers, hmissing] at hanswer
          cases hanswer
        have hnew' : (table.insert first raw).contains reference = false := by
          rw [contains_insert, hnew, decide_eq_false hne, Bool.or_false]
        have hknown := hstep.candidates known
        refine (result_buildFrom_of_step hstep known hknown).trans ?_
        simp only [List.append_assoc, List.cons_append] at hknown ⊢
        exact ih hrest hnew'

theorem result_build_missing {before after : List String} {reference : String}
    (hreferences : expressions.flatMap Expression.references = before ++ reference :: after)
    (hbefore : ∀ r ∈ before, source.IsAnswered r)
    (hmissing : source.raw? (stripBraces reference) = none) :
    (build expressions source).outcome.result = .error (.referenceNotFound reference) := by
  unfold build
  generalize expressions.flatMap Expression.references = start at hreferences
  subst hreferences
  exact result_buildFrom_missing hbefore rfl hmissing

/-- Building gives a table exactly when everything needed has an answer that can be read. -/
theorem exists_build_iff :
    (∃ table, (build expressions source).outcome.result = .ok table) ↔
      ∀ r, source.Needs expressions r → source.IsAnswered r := by
  constructor
  · rintro ⟨table, h⟩ r hneeds
    obtain ⟨raw, e, hget, hparse⟩ :=
      (covers_of_build h).readable r ((contains_iff_needs h).mpr hneeds)
    exact ⟨raw, e, (within_of_build h).answered r raw hget, hparse⟩
  · intro hanswered
    cases h : (build expressions source).outcome.result with
    | ok table => exact ⟨table, rfl⟩
    | error error =>
        have hstart : ∀ r ∈ expressions.flatMap Expression.references,
            source.Needs expressions r := by
          intro r hr
          obtain ⟨e, he, hr⟩ := List.mem_flatMap.mp hr
          exact .own he hr
        obtain ⟨r, hneeds, hnot⟩ := exists_unanswered_of_buildFrom hstart h
        exact absurd (hanswered r hneeds) hnot

/-- The entries of a table that was built are the needed references with their answers. -/
theorem mem_entries_iff (h : (build expressions source).outcome.result = .ok table)
    {r raw : String} :
    (r, raw) ∈ table.entries ↔
      source.Needs expressions r ∧ source.Answers (stripBraces r) raw := by
  rw [← get?_eq_some_iff h, get?, lookup_eq_some_iff_mem (within_of_build h).distinct]

/-- A source with the same answers, asked for the same expressions in any order, gives a
table with the same values. -/
theorem exists_build_of_raw?_eq {source' : Source} {expressions' : List Expression}
    (hraw : source.raw? = source'.raw?) (hmem : ∀ e, e ∈ expressions ↔ e ∈ expressions')
    (h : (build expressions source).outcome.result = .ok table) :
    ∃ table', (build expressions' source').outcome.result = .ok table' ∧
      ∀ r, table.get? r = table'.get? r := by
  have hneeds : ∀ r, source'.Needs expressions' r ↔ source.Needs expressions r := fun r =>
    ⟨.mono hraw.symm fun e => (hmem e).mpr, .mono hraw fun e => (hmem e).mp⟩
  have hanswers : ∀ path raw, source'.Answers path raw ↔ source.Answers path raw := by
    intro path raw
    rw [Source.Answers, Source.Answers, hraw]
  obtain ⟨table', h'⟩ :
      ∃ table', (build expressions' source').outcome.result = .ok table' := by
    rw [exists_build_iff]
    intro r hr
    obtain ⟨raw, e, hanswer, hparse⟩ := exists_build_iff.mp ⟨table, h⟩ r ((hneeds r).mp hr)
    exact ⟨raw, e, (hanswers _ _).mpr hanswer, hparse⟩
  refine ⟨table', h', fun r => Option.ext fun raw => ?_⟩
  rw [get?_eq_some_iff h, get?_eq_some_iff h', hneeds, hanswers]

/-- Expressions in another order, or repeated, give a table with the same entries. -/
theorem exists_build_perm {expressions' : List Expression}
    (hmem : ∀ e, e ∈ expressions' ↔ e ∈ expressions)
    (h : (build expressions source).outcome.result = .ok table) :
    ∃ table', (build expressions' source).outcome.result = .ok table' ∧
      table'.entries.Perm table.entries := by
  have hneeds : ∀ r, source.Needs expressions' r ↔ source.Needs expressions r := fun r =>
    ⟨.mono rfl fun e => (hmem e).mp, .mono rfl fun e => (hmem e).mpr⟩
  obtain ⟨table', h'⟩ : ∃ table', (build expressions' source).outcome.result = .ok table' := by
    rw [exists_build_iff]
    intro r hr
    exact exists_build_iff.mp ⟨table, h⟩ r ((hneeds r).mp hr)
  refine ⟨table', h', ?_⟩
  have hdistinct := List.Nodup.of_map Prod.fst (within_of_build h).distinct
  have hdistinct' := List.Nodup.of_map Prod.fst (within_of_build h').distinct
  rw [List.perm_ext_iff_of_nodup hdistinct' hdistinct]
  rintro ⟨r, raw⟩
  rw [mem_entries_iff h', mem_entries_iff h, hneeds]

end LookupTable

/-- An answer can be read unless it holds an opening parenthesis. -/
theorem Source.isAnswered_iff {source : Source} {r : String} :
    source.IsAnswered r ↔
      ∃ raw, source.raw? (stripBraces r) = some raw ∧ '(' ∉ raw.toList := by
  have hreadable : ∀ raw, (∃ e, Expression.parse raw = .ok e) ↔ '(' ∉ raw.toList := by
    intro raw
    cases hparse : Expression.parse raw with
    | ok e =>
        refine iff_of_true ⟨e, rfl⟩ fun hparen => ?_
        rw [Expression.parse_eq_error_iff.mpr ⟨hparen, rfl⟩] at hparse
        cases hparse
    | error cause =>
        refine iff_of_false (by rintro ⟨e, he⟩; cases he) ?_
        exact not_not_intro (Expression.parse_eq_error_iff.mp hparse).1
  constructor
  · rintro ⟨raw, e, hanswer, hparse⟩
    exact ⟨raw, hanswer, (hreadable raw).mp ⟨e, hparse⟩⟩
  · rintro ⟨raw, hanswer, hparen⟩
    obtain ⟨e, hparse⟩ := (hreadable raw).mpr hparen
    exact ⟨raw, e, hanswer, hparse⟩

/-- **Building finds the least table.** It gives a table exactly when every reference that is
needed has an answer without an opening parenthesis. The table then stores the references
that are needed and no other, each once and with its answer as it was given; and the same
expressions in another order, or repeated, give a table with the same entries. -/
theorem build_least (source : Source) (expressions : List Expression) :
    ((∃ table, (LookupTable.build expressions source).outcome.result = .ok table) ↔
      ∀ r, source.Needs expressions r →
        ∃ raw, source.raw? (stripBraces r) = some raw ∧ '(' ∉ raw.toList) ∧
    ∀ table, (LookupTable.build expressions source).outcome.result = .ok table →
      (∀ r, r ∈ table.stored ↔ source.Needs expressions r) ∧ table.stored.Nodup ∧
      (∀ r ∈ table.stored, table.get? r = source.raw? (stripBraces r)) ∧
      ∀ expressions', (∀ e, e ∈ expressions' ↔ e ∈ expressions) →
        ∃ table', (LookupTable.build expressions' source).outcome.result = .ok table' ∧
          table'.entries.Perm table.entries := by
  constructor
  · rw [LookupTable.exists_build_iff]
    exact forall_congr' fun r => imp_congr_right fun _ => Source.isAnswered_iff
  · intro table h
    have hstored : ∀ r, r ∈ table.stored ↔ source.Needs expressions r := by
      intro r
      rw [← LookupTable.contains_iff_mem_stored, LookupTable.contains_iff_needs h]
    refine ⟨hstored, (LookupTable.within_of_build h).distinct, ?_, ?_⟩
    · intro r hr
      have hneeds := (hstored r).mp hr
      obtain ⟨raw, e, hanswer, -⟩ := LookupTable.exists_build_iff.mp ⟨table, h⟩ r hneeds
      rw [(LookupTable.get?_eq_some_iff h).mpr ⟨hneeds, hanswer⟩, ← hanswer]
    · intro expressions' hmem
      exact LookupTable.exists_build_perm hmem h

/-- Two references that lead to each other, one of them also to itself, and an answer that
cannot be read and that nothing needs. -/
def tangledSource : Source := .ofList [("c", "calc(1)"), ("a", "{b} / {b}"), ("b", "{a} + {b}")]

/-- `{a}` -/
def tangledExpression : Expression := ⟨"{a}", [.reference "{a}"], true⟩

/-- What building finds in `tangledSource`. -/
def tangledTable : LookupTable := ⟨[("{a}", "{b} / {b}"), ("{b}", "{a} + {b}")]⟩

theorem build_tangledTable :
    (LookupTable.build [tangledExpression] tangledSource).outcome.result = .ok tangledTable := by
  have hparseA : Expression.parse "{b} / {b}" =
      .ok ⟨"{b}/{b}", [.reference "{b}", .operator .divide, .reference "{b}"], true⟩ := by
    decide +kernel
  have hparseB : Expression.parse "{a} + {b}" =
      .ok ⟨"{a}+{b}", [.reference "{a}", .operator .add, .reference "{b}"], true⟩ := by
    decide +kernel
  have hstoreA : Filling.Step tangledSource.Answers (.start [tangledExpression])
      ⟨⟨[("{a}", "{b} / {b}")]⟩, ["{b}", "{b}"]⟩ :=
    .store (by decide) (by decide) hparseA
  have hstoreB : Filling.Step tangledSource.Answers
      ⟨⟨[("{a}", "{b} / {b}")]⟩, ["{b}", "{b}"]⟩ ⟨tangledTable, ["{b}", "{b}"]⟩ :=
    .store (by decide) (by decide) hparseB
  have hskip : tangledTable.contains "{b}" = true := by decide
  rw [LookupTable.build_eq_ok_iff]
  exact .head hstoreA (.head hstoreB (.head (.skip hskip) (.single (.skip hskip))))

theorem build_least_tangled :
    (LookupTable.build [tangledExpression] tangledSource).outcome.result = .ok tangledTable ∧
      (∀ r, r ∈ tangledTable.stored ↔ tangledSource.Needs [tangledExpression] r) ∧
      tangledTable.stored.Nodup ∧
      (∀ r ∈ tangledTable.stored, tangledTable.get? r = tangledSource.raw? (stripBraces r)) ∧
      (∀ e, e ∈ [tangledExpression, tangledExpression] ↔ e ∈ [tangledExpression]) ∧
      ∃ table', (LookupTable.build [tangledExpression, tangledExpression]
          tangledSource).outcome.result = .ok table' ∧
        table'.entries.Perm tangledTable.entries := by
  have hmem : ∀ e, e ∈ [tangledExpression, tangledExpression] ↔ e ∈ [tangledExpression] := by
    simp
  obtain ⟨hstored, hnodup, hget, horder⟩ :=
    (build_least tangledSource [tangledExpression]).2 tangledTable build_tangledTable
  exact ⟨build_tangledTable, hstored, hnodup, hget, hmem, horder _ hmem⟩

end DesignTokens
