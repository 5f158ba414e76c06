import DesignTokens.Evaluation.Part
import DesignTokens.Lookup.Table

set_option autoImplicit false

/-! # Evaluation

`evaluate` gives an expression its value against a lookup table. References are resolved
from left to right, each by evaluating the expression of its raw value; a reference that
was already resolved in the same call is not evaluated again. A reference that is met while
it is being evaluated, or below `maxReferenceDepth` others, ends the evaluation with the
chain that led to it.

`resolveAtoms` takes the resolution of a single reference as an argument; `resolve` ties
the two together by recursion on the number of references that may still be entered.
-/

namespace DesignTokens

/-- The longest chain of references that is followed. -/
def maxReferenceDepth : Nat := 64

/-- The values of references already resolved in one evaluation, the latest first. -/
abbrev Memo := List (String × Evaluated)

/-- The parts of some atoms, and the values known after resolving their references with
`resolve`. -/
def resolveAtoms (resolve : Memo → String → Traced EvalError (Evaluated × Memo))
    (memo : Memo) : List Atom → Traced EvalError (List Part × Memo)
  | [] => pure ([], memo)
  | .operator op :: atoms => do
    let (parts, memo) ← resolveAtoms resolve memo atoms
    return (.operator op :: parts, memo)
  | .number value unit _ :: atoms => do
    let (parts, memo) ← resolveAtoms resolve memo atoms
    return (.number value (Part.unitOf unit) :: parts, memo)
  | .verbatim text :: atoms => do
    let (parts, memo) ← resolveAtoms resolve memo atoms
    return (.text text :: parts, memo)
  | .reference text :: atoms => do
    let (value, memo) ← resolve memo text
    let (parts, memo) ← resolveAtoms resolve memo atoms
    return (.ofEvaluated value :: parts, memo)

/-- The value of an expression `depth` references deep. -/
def evaluateWith (resolve : Memo → String → Traced EvalError (Evaluated × Memo))
    (depth : Nat) (memo : Memo) (e : Expression) : Traced EvalError (Evaluated × Memo) := do
  .report (.evaluating e.source depth)
  let (parts, memo) ← resolveAtoms resolve memo e.atoms
  let value ← .ofExcept (assemble e.numeric parts)
  return (value, memo)

/-- The value of a reference below the references of `chain`, at most `room` more of which
may be entered. -/
def resolve (table : LookupTable) :
    (room : Nat) → (chain : List String) → Memo → String → Traced EvalError (Evaluated × Memo)
  | 0, chain, _, reference => .fail (.referenceCycle (chain ++ [reference]))
  | room + 1, chain, memo, reference =>
    if chain.contains reference then
      .fail (.referenceCycle (chain ++ [reference]))
    else
      match memo.lookup reference with
      | some value => pure (value, memo)
      | none =>
        match table.get? reference with
        | none => .fail (.referenceNotFound reference)
        | some raw => do
          let e ← (Expression.read raw).mapError .unreadable
          let chain := chain ++ [reference]
          let (value, memo) ← evaluateWith (resolve table room chain) chain.length memo e
          return (value, (reference, value) :: memo)

/-- The value of an expression. -/
def evaluate (table : LookupTable) (e : Expression) : Traced EvalError Evaluated := do
  let (value, _) ← evaluateWith (resolve table maxReferenceDepth []) 0 [] e
  return value

end DesignTokens
