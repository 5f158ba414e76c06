import DesignTokens.Proofs.Lookup.Entries
import DesignTokens.Proofs.Lookup.Graph
import Mathlib.Data.List.Chain
import Mathlib.Data.List.Induction

set_option autoImplicit false

/-! # Chains and cycles of references

A chain takes the references an expression leads to one after the other: it starts with one
of the expression's own, and each of its references refers to the next
(`LookupTable.IsChainFrom`). A reference that occurs twice in a chain leads back to itself
(`IsChainFrom.transGen`), so nothing repeats below an expression without cycles
(`LookupTable.IsAcyclicBelow`).

A table whose references can be ranked, each above the ones it refers to, has no cycles,
and no chain is longer than the rank it starts with (`isAcyclicBelow_of_rank`,
`IsChainFrom.length_le_of_rank`). Whether a ranking is one is decided by `IsRankedBy`.
-/

namespace DesignTokens

namespace LookupTable

/-- Nothing that an expression leads to leads back to itself. -/
def IsAcyclicBelow (table : LookupTable) (e : Expression) : Prop :=
  ∀ r, table.Reaches e r → ¬Relation.TransGen table.Refers r r

/-- References that follow one another, starting in an expression. -/
structure IsChainFrom (table : LookupTable) (e : Expression) (chain : List String) : Prop where
  starts : ∀ r ∈ chain.head?, r ∈ e.references
  linked : chain.IsChain table.Refers

namespace IsChainFrom

variable {table : LookupTable} {e : Expression} {chain chain' : List String} {r r' : String}

theorem singleton (h : r ∈ e.references) : table.IsChainFrom e [r] where
  starts r' hr' := by
    cases hr'
    exact h
  linked := List.isChain_singleton r

/-- A chain goes on with a reference that its last one refers to. -/
theorem extend (h : table.IsChainFrom e (chain ++ [r])) (hrefers : table.Refers r r') :
    table.IsChainFrom e (chain ++ [r] ++ [r']) where
  starts x hx := by
    rw [List.head?_append_of_ne_nil _ (List.append_ne_nil_of_right_ne_nil _ (by simp))] at hx
    exact h.starts x hx
  linked := by
    refine h.linked.append (List.isChain_singleton r') ?_
    intro x hx y hy
    rw [List.getLast?_concat] at hx
    cases hx
    cases hy
    exact hrefers

theorem of_append (h : table.IsChainFrom e (chain ++ chain')) : table.IsChainFrom e chain where
  starts x hx := by
    refine h.starts x ?_
    rw [List.head?_append, Option.mem_def.mp hx]
    rfl
  linked := h.linked.left_of_append

/-- An expression reaches the references of its chains. -/
theorem reaches (h : table.IsChainFrom e chain) (hmem : r ∈ chain) : table.Reaches e r := by
  induction chain using List.reverseRecOn generalizing r with
  | nil => cases hmem
  | append_singleton chain last ih =>
      have hprefix : table.IsChainFrom e chain := h.of_append
      rcases List.mem_append.mp hmem with hmem | hmem
      · exact ih hprefix hmem
      rw [List.mem_singleton.mp hmem]
      -- the last reference is the first as well, or one before refers to it
      cases hbefore : chain.getLast? with
      | none =>
          rw [List.getLast?_eq_none_iff.mp hbefore] at h
          exact reaches_of_mem (h.starts last rfl)
      | some before =>
          have hrefers : table.Refers before last :=
            (List.isChain_append.mp h.linked).2.2 before hbefore last rfl
          have hreached : table.Reaches e before :=
            ih hprefix (List.mem_of_getLast? hbefore)
          exact table.isClosed_reaches e hreached hrefers

/-- A reference of a chain leads to the one at its end. -/
theorem transGen (h : table.IsChainFrom e (chain ++ [r'])) (hmem : r ∈ chain) :
    Relation.TransGen table.Refers r r' := by
  have hchain : (chain ++ [r']).IsChain (Relation.TransGen table.Refers) :=
    h.linked.imp fun _ _ hrefers => .single hrefers
  have hpairwise := List.isChain_iff_pairwise.mp hchain
  exact (List.pairwise_append.mp hpairwise).2.2 r hmem r' List.mem_cons_self

end IsChainFrom

/-! ## Tables that agree

Below an expression there are the same chains and cycles in two tables that hold the same
values for everything the expression reaches in the first. -/

section

variable {table table' : LookupTable} {e : Expression} {r r' : String}
  (hagree : ∀ r, table.Reaches e r → table.get? r = table'.get? r)

include hagree

theorem refers_of_agree (hr : table.Reaches e r) (h : table'.Refers r r') : table.Refers r r' := by
  rwa [Refers, hagree r hr]

theorem reaches_of_agree (h : table'.Reaches e r) : table.Reaches e r := by
  obtain ⟨first, hmem, hpath⟩ := h
  induction hpath with
  | refl => exact reaches_of_mem hmem
  | tail _ hrefers ih => exact table.isClosed_reaches e ih (refers_of_agree hagree ih hrefers)

theorem transGen_of_agree (hr : table.Reaches e r) (h : Relation.TransGen table'.Refers r r') :
    Relation.TransGen table.Refers r r' := by
  induction h with
  | single hrefers => exact .single (refers_of_agree hagree hr hrefers)
  | tail _ hrefers ih =>
      obtain ⟨first, hmem, hpath⟩ := hr
      have hmiddle : table.Reaches e _ := ⟨first, hmem, hpath.trans ih.to_reflTransGen⟩
      exact ih.tail (refers_of_agree hagree hmiddle hrefers)

theorem isAcyclicBelow_of_agree (h : table.IsAcyclicBelow e) : table'.IsAcyclicBelow e := by
  intro r hr hcycle
  have hreached := reaches_of_agree hagree hr
  exact h r hreached (transGen_of_agree hagree hreached hcycle)

theorem isChainFrom_of_agree {chain : List String} (h : table'.IsChainFrom e chain) :
    table.IsChainFrom e chain where
  starts := h.starts
  linked := h.linked.imp_of_mem_imp fun _ _ hr _ hrefers =>
    refers_of_agree hagree (reaches_of_agree hagree (h.reaches hr)) hrefers

end

/-! ## Ranks -/

/-- Every stored reference ranks above those in its raw value. -/
def IsRankedBy (table : LookupTable) (rank : String → Nat) : Bool :=
  table.entries.all fun entry => (referencesIn entry.2).all fun r => rank r < rank entry.1

section

variable {table : LookupTable} {rank : String → Nat}

theorem lt_of_refers (h : table.IsRankedBy rank = true) {r r' : String}
    (hrefers : table.Refers r r') : rank r' < rank r := by
  obtain ⟨raw, e, hget, hparse, hmem⟩ := hrefers
  have hentry : (r, raw) ∈ table.entries := mem_of_lookup_eq_some hget
  have hin : r' ∈ referencesIn raw := by
    rw [referencesIn, hparse]
    exact hmem
  have hall := List.all_eq_true.mp (List.all_eq_true.mp h (r, raw) hentry) r' hin
  exact of_decide_eq_true hall

theorem lt_of_transGen (hrank : table.IsRankedBy rank = true) {r r' : String}
    (h : Relation.TransGen table.Refers r r') : rank r' < rank r := by
  induction h with
  | single hrefers => exact lt_of_refers hrank hrefers
  | tail _ hrefers ih => exact (lt_of_refers hrank hrefers).trans ih

theorem isAcyclicBelow_of_rank (hrank : table.IsRankedBy rank = true)
    (e : Expression) : table.IsAcyclicBelow e := by
  intro r _ hcycle
  exact Nat.lt_irrefl _ (lt_of_transGen hrank hcycle)

theorem length_le_of_isChain (hrank : table.IsRankedBy rank = true) {r : String}
    {rest : List String} (h : (r :: rest).IsChain table.Refers) :
    (r :: rest).length ≤ rank r + 1 := by
  induction rest generalizing r with
  | nil => exact Nat.le_add_left _ _
  | cons next rest ih =>
      have hless := lt_of_refers hrank h.rel
      have hrest := ih h.tail
      rw [List.length_cons]
      omega

/-- A chain has no more references than there are ranks up to that of its first. -/
theorem IsChainFrom.length_le_of_rank (hrank : table.IsRankedBy rank = true)
    {e : Expression} {bound : Nat} (hbound : ∀ r ∈ e.references, rank r < bound)
    {chain : List String} (h : table.IsChainFrom e chain) : chain.length ≤ bound := by
  cases chain with
  | nil => exact Nat.zero_le _
  | cons r rest =>
      have hfirst := hbound r (h.starts r rfl)
      have hlength := length_le_of_isChain hrank h.linked
      omega

end

end LookupTable

end DesignTokens
