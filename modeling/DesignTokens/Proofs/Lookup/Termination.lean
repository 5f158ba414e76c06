import DesignTokens.Proofs.Lookup.Questions
import DesignTokens.Proofs.Tree.References

set_option autoImplicit false

/-! # Building ends

A turn of the queue can lengthen it, and a reference may wait more than once, so neither the
queue nor the table alone bounds the turns that are left. Together they do: a reference can be
stored only once, and only if it is a candidate of the source, and storing it lets no more
references wait than there are in all answers. `Filling.turnsLeft` counts one turn for each
reference that waits and as many turns as that for each candidate that is missing; every turn
makes it smaller (`Filling.Step.turnsLeft_lt`).

For the source of a tree this is a bound in terms of the references in the tree
(`build_ends_on_tree`). It rests on a source having finitely many answers: one that answers
every reference with a longer one would be asked forever.
-/

namespace DesignTokens

/-- The references in all answers of a source. -/
def Source.references (source : Source) : List String := source.texts.flatMap referencesIn

/-- No answer holds more references than all of them together. -/
theorem Source.length_references_le {source : Source} {path raw : String} {e : Expression}
    (hanswer : source.Answers path raw) (hparse : Expression.parse raw = .ok e) :
    e.references.length ≤ source.references.length := by
  have hmem : raw ∈ source.texts := source.mem_texts hanswer
  have hfound : referencesIn raw = e.references := by rw [referencesIn, hparse]
  rw [references, ← hfound]
  exact (List.sublist_flatten_of_mem (List.mem_map_of_mem hmem)).length_le

namespace Filling

/-- How many turns can be left: one for each reference that waits, and for each candidate that
is not stored as many as there are references in all answers. -/
def turnsLeft (source : Source) (references : List String) (s : Filling) : Nat :=
  s.pending.length +
    (s.table.missing (source.candidates references)).length * source.references.length

variable {source : Source} {references : List String} {s s' : Filling}

/-- A turn of the queue leaves fewer turns. -/
theorem Step.turnsLeft_lt (hstep : Step source.Answers s s')
    (known : ∀ r ∈ s.pending, r ∈ source.candidates references) :
    s'.turnsLeft source references < s.turnsLeft source references := by
  cases hstep with
  | @skip table reference pending hstored =>
      simp only [turnsLeft, List.length_cons]
      omega
  | @store table reference raw pending e hnew hanswer hparse =>
      have hreference : reference ∈ source.candidates references :=
        known reference List.mem_cons_self
      have hless := LookupTable.length_missing_insert_lt hreference hnew raw
      have hfound : (e.references.filter fun r => !table.contains r).length ≤
          source.references.length :=
        Nat.le_trans (List.length_filter_le _ _) (Source.length_references_le hanswer hparse)
      simp only [turnsLeft, List.length_cons, List.length_append]
      generalize (e.references.filter fun r => !table.contains r).length = found at hfound ⊢
      generalize ((table.insert reference raw).missing (source.candidates references)).length =
        missing' at hless ⊢
      generalize (table.missing (source.candidates references)).length = missing at hless ⊢
      generalize source.references.length = most at hfound ⊢
      -- the references found are paid for by the candidate that is no longer missing
      have hpaid : missing' * most + most ≤ missing * most :=
        calc missing' * most + most = (missing' + 1) * most := (Nat.succ_mul missing' most).symm
          _ ≤ missing * most := Nat.mul_le_mul_right most hless
      omega

/-- A run has no more turns than there are left at its beginning. -/
theorem length_le_turnsLeft {states : List Filling}
    (hchain : (s :: states).IsChain (Step source.Answers))
    (known : ∀ r ∈ s.pending, r ∈ source.candidates references) :
    states.length ≤ s.turnsLeft source references := by
  induction states generalizing s with
  | nil => exact Nat.zero_le _
  | cons next states ih =>
      obtain ⟨hstep, hrest⟩ := List.isChain_cons_cons.mp hchain
      have hless := hstep.turnsLeft_lt known
      have hlength := ih hrest (hstep.candidates known)
      rw [List.length_cons]
      omega

theorem turnsLeft_start (source : Source) (expressions : List Expression) :
    (start expressions).turnsLeft source (expressions.flatMap Expression.references) =
      (expressions.flatMap Expression.references).length +
        ((expressions.flatMap Expression.references).length + source.references.length) *
          source.references.length := by
  have hmissing : LookupTable.empty.missing
      (source.candidates (expressions.flatMap Expression.references)) =
      source.candidates (expressions.flatMap Expression.references) :=
    List.filter_eq_self.mpr fun r _ => rfl
  rw [turnsLeft, start, hmissing, Source.candidates, List.length_append]
  rfl

/-- Either there is a turn, or building ends here. -/
theorem exists_step_or_stops (source : Source) (s : Filling) :
    (∃ s', Step source.Answers s s') ∨
      ∃ asked result, Stops (fun path reply => source.raw? path = reply) s asked result := by
  obtain ⟨table, pending⟩ := s
  cases pending with
  | nil => exact Or.inr ⟨_, _, .done⟩
  | cons reference pending =>
      by_cases hstored : table.contains reference = true
      · exact Or.inl ⟨_, .skip hstored⟩
      · have hnew := Bool.eq_false_iff.mpr hstored
        cases hraw : source.raw? (stripBraces reference) with
        | none => exact Or.inr ⟨_, _, .missing hnew hraw⟩
        | some raw =>
            cases hparse : Expression.parse raw with
            | error cause => exact Or.inr ⟨_, _, .unreadable hnew hraw hparse⟩
            | ok e => exact Or.inl ⟨_, .store hnew hraw hparse⟩

end Filling

theorem TokenTree.references_source (tree : TokenTree) :
    tree.source.references = tree.references := by
  rw [Source.references, source, references, List.flatMap_map]

/-- **Building ends on every tree.** Let some expressions hold `m` references and the values of
a tree `n`, whatever they refer to. Then the queue takes at most `m + (m + n) * n` turns. As
long as building has not ended there is another turn, and it ends, with an empty queue or an
error, in the way that `build` says. -/
theorem build_ends_on_tree (tree : TokenTree) (expressions : List Expression) :
    (∀ states, (Filling.start expressions :: states).IsChain (Filling.Step tree.source.Answers) →
      states.length ≤ (expressions.flatMap Expression.references).length +
        ((expressions.flatMap Expression.references).length + tree.references.length) *
          tree.references.length) ∧
    (∀ s, (∃ s', Filling.Step tree.source.Answers s s') ∨
      ∃ asked result,
        Filling.Stops (fun path reply => tree.rawValue? path = reply) s asked result) ∧
    ∃ s asked, Filling.Run tree.source.Answers (.start expressions) s ∧
      Filling.Stops (fun path reply => tree.rawValue? path = reply) s asked
        (LookupTable.build expressions tree.source).outcome.result := by
  refine ⟨fun states hchain => ?_, Filling.exists_step_or_stops tree.source, ?_⟩
  · have known : ∀ r ∈ (Filling.start expressions).pending,
        r ∈ tree.source.candidates (expressions.flatMap Expression.references) :=
      fun _ hr => Source.mem_candidates_of_start hr
    have hlength := Filling.length_le_turnsLeft hchain known
    rwa [Filling.turnsLeft_start, tree.references_source] at hlength
  · have hends := LookupTable.ends_build tree.source expressions
    obtain ⟨s, asked, hrun, hstop, -⟩ := hends.exists_stops
    exact ⟨s, asked, hrun, hstop⟩

/-- `a` refers to itself and to `b`, which refers to `a` again and to `c`, which is missing. -/
def cyclicTree : TokenTree :=
  .token "a" ⟨.scalar "{a} + {b}", "number"⟩ (.token "b" ⟨.scalar "{a} / {c}", "number"⟩ .nil)

theorem build_ends_on_tree_cyclic :
    ∃ states, (Filling.start [tangledExpression] :: states).IsChain
        (Filling.Step cyclicTree.source.Answers) ∧
      states.length = 3 ∧ states.length ≤ 1 + (1 + 4) * 4 ∧
      ∃ s asked, Filling.Run cyclicTree.source.Answers (.start [tangledExpression]) s ∧
        Filling.Stops (fun path reply => cyclicTree.rawValue? path = reply) s asked
          (LookupTable.build [tangledExpression] cyclicTree.source).outcome.result := by
  have hparseA : Expression.parse "{a} + {b}" =
      .ok ⟨"{a}+{b}", [.reference "{a}", .operator .add, .reference "{b}"], true⟩ := by
    decide +kernel
  have hparseB : Expression.parse "{a} / {c}" =
      .ok ⟨"{a}/{c}", [.reference "{a}", .operator .divide, .reference "{c}"], true⟩ := by
    decide +kernel
  have hstoreA : Filling.Step cyclicTree.source.Answers (.start [tangledExpression])
      ⟨⟨[("{a}", "{a} + {b}")]⟩, ["{a}", "{b}"]⟩ :=
    .store (by decide) (by decide) hparseA
  have hskip : Filling.Step cyclicTree.source.Answers
      ⟨⟨[("{a}", "{a} + {b}")]⟩, ["{a}", "{b}"]⟩ ⟨⟨[("{a}", "{a} + {b}")]⟩, ["{b}"]⟩ :=
    .skip (by decide)
  have hstoreB : Filling.Step cyclicTree.source.Answers ⟨⟨[("{a}", "{a} + {b}")]⟩, ["{b}"]⟩
      ⟨⟨[("{a}", "{a} + {b}"), ("{b}", "{a} / {c}")]⟩, ["{c}"]⟩ :=
    .store (by decide) (by decide) hparseB
  have hchain := List.IsChain.cons_cons hstoreA
    (.cons_cons hskip (.cons_cons hstoreB (.singleton _)))
  have hcount : cyclicTree.references.length = 4 := by decide +kernel
  obtain ⟨hbound, -, hend⟩ := build_ends_on_tree cyclicTree [tangledExpression]
  have hlength := hbound _ hchain
  rw [hcount] at hlength
  exact ⟨_, hchain, rfl, hlength, hend⟩

end DesignTokens
