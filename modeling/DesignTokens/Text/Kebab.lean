import DesignTokens.Text.Word

set_option autoImplicit false

/-! # Kebab case

`kebab` writes a name such as `fontSize` in small letters with dashes, `font-size`. A run
of capitals is one word, except that its last capital opens the next word when a small
letter follows: `HTMLColor` becomes `html-color`. Only ASCII letters are looked at.
-/

namespace DesignTokens

/-- The small letter of an ASCII capital; any other character is kept. -/
def lowerChar (c : Char) : Char := if isCapital c then Char.ofNat (c.toNat + 32) else c

/-- How many capitals of a run belong to one word, `rest` being the text after the run: all
of them, unless a small letter follows, which takes the last capital into its own word. -/
def capitalsInWord (run : Nat) (rest : List Char) : Nat :=
  match rest.head? with
  | some c => if isSmall c then (if 2 ≤ run then run - 1 else 1) else run
  | none => run

theorem capitalsInWord_pos {run : Nat} (h : 0 < run) (rest : List Char) :
    0 < capitalsInWord run rest := by
  unfold capitalsInWord
  repeat' split
  all_goals omega

/-- Kebab case of a text; `atStart` says that no dash is due before a first capital. -/
def kebabChars (atStart : Bool) : List Char → List Char
  | [] => []
  | c :: cs =>
    if isCapital c then
      let run := cs.takeWhile isCapital
      let size := capitalsInWord (run.length + 1) (cs.dropWhile isCapital)
      (if atStart then [] else ['-']) ++ ((c :: cs).take size).map lowerChar ++
        kebabChars false ((c :: cs).drop size)
    else
      c :: kebabChars false cs
termination_by cs => cs.length
decreasing_by
  · have h : 0 < capitalsInWord ((cs.takeWhile isCapital).length + 1)
        (cs.dropWhile isCapital) := capitalsInWord_pos (by omega) _
    simp only [List.length_drop, List.length_cons]
    omega
  · simp

/-- The name in kebab case. -/
def kebab (name : String) : String := String.ofList (kebabChars true name.toList)

end DesignTokens
