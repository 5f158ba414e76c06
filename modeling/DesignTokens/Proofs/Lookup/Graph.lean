import DesignTokens.Lookup.Table
import Mathlib.Logic.Relation

set_option autoImplicit false

/-! # The graph of a lookup table

A stored reference *refers* to the references in its raw value. `LookupTable.Reaches` is what
an expression leads to along these edges, and `LookupTable.IsClosed` says of a set of
references that no edge leaves it; `LookupTable.IsClosed.of_reaches` puts the two together.
-/

namespace DesignTokens

namespace LookupTable

/-- The raw value of the first reference holds the second. -/
def Refers (table : LookupTable) (r r' : String) : Prop :=
  ∃ raw e, table.get? r = some raw ∧ Expression.parse raw = .ok e ∧ r' ∈ e.references

/-- A set of references that holds, with each of them, the references it refers to. -/
def IsClosed (table : LookupTable) (S : String → Prop) : Prop :=
  ∀ {r r' : String}, S r → table.Refers r r' → S r'

/-- A reference is met when those of an expression are followed. -/
def Reaches (table : LookupTable) (e : Expression) (r : String) : Prop :=
  ∃ r₀ ∈ e.references, Relation.ReflTransGen table.Refers r₀ r

/-- A reference is stored with a raw value that can be read. -/
def IsReadable (table : LookupTable) (r : String) : Prop :=
  ∃ raw e, table.get? r = some raw ∧ Expression.parse raw = .ok e

theorem refers_iff {table : LookupTable} {r raw : String} {e : Expression}
    (hget : table.get? r = some raw) (hparse : Expression.parse raw = .ok e) {r' : String} :
    table.Refers r r' ↔ r' ∈ e.references := by
  constructor
  · rintro ⟨raw', e', hget', hparse', hmem⟩
    rw [hget, Option.some.injEq] at hget'
    subst hget'
    rw [hparse, Except.ok.injEq] at hparse'
    rwa [hparse']
  · intro hmem
    exact ⟨raw, e, hget, hparse, hmem⟩

theorem reaches_of_mem {table : LookupTable} {e : Expression} {r : String}
    (h : r ∈ e.references) : table.Reaches e r :=
  ⟨r, h, .refl⟩

theorem isClosed_reaches (table : LookupTable) (e : Expression) :
    table.IsClosed (table.Reaches e) := by
  rintro r r' ⟨r₀, hmem, hpath⟩ hrefers
  exact ⟨r₀, hmem, hpath.tail hrefers⟩

/-- A closed set that holds the references of an expression holds all it reaches. -/
theorem IsClosed.of_reaches {table : LookupTable} {S : String → Prop} (hclosed : table.IsClosed S)
    {e : Expression} (hstart : ∀ r ∈ e.references, S r) {r : String} (h : table.Reaches e r) :
    S r := by
  obtain ⟨r₀, hmem, hpath⟩ := h
  induction hpath with
  | refl => exact hstart r₀ hmem
  | tail _ hrefers ih => exact hclosed ih hrefers

end LookupTable

end DesignTokens
