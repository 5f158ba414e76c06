import DesignTokens.Tokens.Formatter

set_option autoImplicit false

/-! # Registries of formatters

A registry holds at most one formatter for each type: registering another one replaces it.
-/

namespace DesignTokens

/-- The formatters in use, no two of them for one type. -/
structure FormatterRegistry where
  formatters : List Formatter
  distinct : (formatters.map Formatter.tokenType).Nodup

namespace FormatterRegistry

/-- The registry without formatters. -/
def empty : FormatterRegistry := ⟨[], List.nodup_nil⟩

/-- The formatters for other types. -/
def others (registry : FormatterRegistry) (tokenType : String) : List Formatter :=
  registry.formatters.filter fun f => f.tokenType != tokenType

/-- Adds a formatter in place of the one for its type. -/
def register (registry : FormatterRegistry) (formatter : Formatter) : FormatterRegistry where
  formatters := formatter :: registry.others formatter.tokenType
  distinct := by
    rw [List.map_cons, List.nodup_cons]
    constructor
    · simp [others]
    · exact (List.filter_sublist.map _).nodup registry.distinct

/-- The registry with only the formatter for single values. -/
def standard : FormatterRegistry := empty.register .single

/-- The formatter for a type. -/
def get? (registry : FormatterRegistry) (tokenType : String) : Option Formatter :=
  registry.formatters.find? fun f => f.tokenType == tokenType

/-- Whether there is a formatter for a type. -/
def contains (registry : FormatterRegistry) (tokenType : String) : Bool :=
  (registry.get? tokenType).isSome

/-- The types with a formatter, in the order of their code points. -/
def types (registry : FormatterRegistry) : List String :=
  (registry.formatters.map Formatter.tokenType).mergeSort

@[simp] theorem get?_empty (tokenType : String) : empty.get? tokenType = none := rfl

/-- The last formatter registered for a type is the one that counts. -/
theorem get?_register (registry : FormatterRegistry) (formatter : Formatter)
    (tokenType : String) :
    (registry.register formatter).get? tokenType =
      if formatter.tokenType = tokenType then some formatter else registry.get? tokenType := by
  unfold get? register others
  by_cases h : formatter.tokenType = tokenType
  · simp [h]
  · simp only [List.find?_cons, beq_eq_false_iff_ne.mpr h, h, if_false, List.find?_filter]
    congr 1
    funext f
    by_cases hf : f.tokenType = tokenType
    · simp [hf, Ne.symm h]
    · simp [hf]

end FormatterRegistry

end DesignTokens
