import Flowchart.Condition.Basic
import Flowchart.Expression.Evaluation

/-!
# Evaluating conditions

Operands are evaluated from left to right, and the right operand of a connective only when the left one does
not settle the matter.  Two numbers are compared as numbers; any other two values by their texts, of which can
be said only whether they are equal.

* `Comparator.ofFloats`, `Comparator.ofTexts`, `Comparator.holds` — a comparison of two values.
* `Condition.eval`, `evaluateCondition` — the truth value of a condition, and of a text.
-/

namespace Flowchart

namespace Comparator

/-- A comparison of two numbers. -/
def ofFloats : Comparator → Float → Float → Bool
  | less, a, b => decide (a < b)
  | greater, a, b => decide (b < a)
  | atMost, a, b => decide (a ≤ b)
  | atLeast, a, b => decide (b ≤ a)
  | equal, a, b => a == b
  | unequal, a, b => !(a == b)

/-- A comparison of two texts: only equality can hold or fail between them. -/
def ofTexts : Comparator → Text → Text → Bool
  | equal, a, b => a == b
  | unequal, a, b => !(a == b)
  | _, _, _ => false

/-- A comparison of two values. -/
def holds (c : Comparator) (a b : Value) : Bool :=
  match a.asFloat?, b.asFloat? with
  | some x, some y => c.ofFloats x y
  | _, _ => c.ofTexts a.displayText b.displayText

end Comparator

/-- The truth value of a condition. -/
def Condition.eval {σ : Type} (env : Environment σ) : Condition → Action σ Bool
  | .both left right => do
    let a ← left.eval env
    if a then right.eval env else pure false
  | .either left right => do
    let a ← left.eval env
    if a then pure true else right.eval env
  | .negation operand => do
    let a ← operand.eval env
    pure !a
  | .compared comparator left right => do
    let a ← left.eval env
    let b ← right.eval env
    pure (comparator.holds a b)
  | .holds value => do
    let a ← value.eval env
    pure a.isTruthy

/-- The truth value of a text read as a condition. -/
def evaluateCondition {σ : Type} (env : Environment σ) (t : Text) : Action σ Bool :=
  (Condition.read t).eval env

end Flowchart
