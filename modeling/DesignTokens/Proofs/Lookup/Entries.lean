import Mathlib.Data.List.Nodup

set_option autoImplicit false

/-! # Entries with distinct keys

Tables, groups and composite values are lists of entries, and the first entry of a key
counts. Where no key occurs twice, looking a key up finds its entry wherever it stands
(`lookup_eq_some_iff_mem`), so the order of the entries does not matter (`lookup_perm`).
-/

namespace DesignTokens

variable {α : Type} {entries entries' : List (String × α)} {key : String}

/-- No two entries share a key. -/
def HasDistinctKeys (entries : List (String × α)) : Prop := (entries.map Prod.fst).Nodup

theorem hasDistinctKeys_cons {value : α} :
    HasDistinctKeys ((key, value) :: entries) ↔
      key ∉ entries.map Prod.fst ∧ HasDistinctKeys entries :=
  List.nodup_cons

theorem HasDistinctKeys.perm (h : HasDistinctKeys entries) (hperm : entries.Perm entries') :
    HasDistinctKeys entries' :=
  ((hperm.map Prod.fst).nodup_iff).mp h

/-- What a key is looked up as is an entry of the key. -/
theorem mem_of_lookup_eq_some {value : α} (h : entries.lookup key = some value) :
    (key, value) ∈ entries := by
  obtain ⟨before, after, rfl, -⟩ := List.lookup_eq_some_iff.mp h
  exact List.mem_append_right _ List.mem_cons_self

theorem lookup_isSome_iff : (entries.lookup key).isSome = true ↔ key ∈ entries.map Prod.fst := by
  rw [Option.isSome_iff_exists]
  constructor
  · rintro ⟨value, hlookup⟩
    exact List.mem_map_of_mem (mem_of_lookup_eq_some hlookup)
  · intro hmem
    obtain ⟨entry, hentry, rfl⟩ := List.mem_map.mp hmem
    cases hlookup : entries.lookup entry.1 with
    | some value => exact ⟨value, rfl⟩
    | none => simpa using List.lookup_eq_none_iff.mp hlookup entry hentry

/-- A key is looked up by finding its only entry. -/
theorem lookup_eq_some_iff_mem (h : HasDistinctKeys entries) {value : α} :
    entries.lookup key = some value ↔ (key, value) ∈ entries := by
  constructor
  · exact mem_of_lookup_eq_some
  · intro hmem
    obtain ⟨before, after, rfl⟩ := List.append_of_mem hmem
    refine List.lookup_eq_some_iff.mpr ⟨before, after, rfl, ?_⟩
    -- an entry of the key before this one would be a second one
    intro entry hentry
    rw [HasDistinctKeys, List.map_append, List.nodup_append] at h
    have hne : entry.1 ≠ key :=
      h.2.2 entry.1 (List.mem_map_of_mem hentry) key (by simp)
    simpa using hne.symm

theorem lookup_perm (h : HasDistinctKeys entries) (hperm : entries.Perm entries') (key : String) :
    entries.lookup key = entries'.lookup key := by
  apply Option.ext
  intro value
  rw [lookup_eq_some_iff_mem h, lookup_eq_some_iff_mem (h.perm hperm), hperm.mem_iff]

/-- Where keys are listed with their answers, one of them is looked up as its answer. -/
theorem lookup_filterMap_pair (answer : String → Option α) (keys : List String) :
    (keys.filterMap fun k => (answer k).map fun value => (k, value)).lookup key =
      if key ∈ keys then answer key else none := by
  induction keys with
  | nil => rfl
  | cons k keys ih =>
      simp only [List.filterMap_cons, List.mem_cons]
      by_cases hkey : key = k
      · subst hkey
        cases hanswer : answer key with
        | none => simp [ih, hanswer]
        | some value => simp
      · have hne : (key == k) = false := beq_eq_false_iff_ne.mpr hkey
        cases answer k <;> simp [List.lookup_cons, hne, hkey, ih]

end DesignTokens
