set_option autoImplicit false

/-! # Dotted paths

A place in a token tree is named by the keys that lead to it, joined by points. A key may
hold points itself, so a path does not determine the keys it was made of.
-/

namespace DesignTokens

/-- The path of the entry `key` in the group at `parent`; the entries of the group with the
empty path are named by their key alone. -/
def childPath (parent key : String) : String :=
  if parent.isEmpty then key else parent ++ "." ++ key

/-- The parts of a path between its points. -/
def segments (path : String) : List String :=
  (path.toList.splitOn '.').map String.ofList

/-- The path with these parts. -/
def joinSegments (parts : List String) : String := ".".intercalate parts

@[simp] theorem childPath_empty (key : String) : childPath "" key = key := by
  simp [childPath]

end DesignTokens
