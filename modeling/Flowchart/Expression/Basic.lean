import Flowchart.Expression.Arithmetic

/-!
# Expressions

An expression is read from a text once, without regard to any variables: whether it is a literal, a call, an
arithmetic text or a name depends on its letters alone.

* `Expression` — the five forms.
* `Expression.read` — reads a text; the forms are tried in the order literal, call, arithmetic, name.
* `Expression.read_eq` — the reading of a text in terms of the readings of the arguments in it.
-/

namespace Flowchart

/-- What stands for a value. -/
inductive Expression where
  /-- A numeral or a string in quotation marks. -/
  | literal (value : Value)
  /-- A function applied to arguments. -/
  | call (name : String) (arguments : List Expression)
  /-- A text with operators, computed when the variables are known. -/
  | arithmetic (source : Text)
  /-- A variable. -/
  | named (name : String)
  /-- A text that stands for no value. -/
  | unreadable (source : Text)

namespace Expression

/-- Reads a trimmed text that is neither a literal nor a call. -/
def readOperand (t : Text) : Expression :=
  if Arithmetic.hasOperator t then .arithmetic t
  else if Text.isName t then .named (String.ofList t)
  else .unreadable t

/-- The value of a literal. -/
def literal? (t : Text) : Option Value :=
  (Literal.numeral? t).or ((Literal.quoted? t).map fun s => .text (String.ofList s))

/-- Reads an expression. -/
def read (t : Text) : Expression :=
  match literal? (Text.trim t) with
  | some v => .literal v
  | none =>
    match _h : Literal.call? (Text.trim t) with
    | some c => .call (String.ofList c.name) (c.arguments.attach.map fun a => read a.1)
    | none => readOperand (Text.trim t)
termination_by t.length
decreasing_by exact Nat.lt_of_lt_of_le (Literal.length_lt_of_mem_arguments _h a.2) (Text.length_trim_le t)

/-- The reading of a text in terms of the readings of its arguments. -/
theorem read_eq (t : Text) :
    read t =
      match literal? (Text.trim t) with
      | some v => .literal v
      | none =>
        match Literal.call? (Text.trim t) with
        | some c => .call (String.ofList c.name) (c.arguments.map read)
        | none => readOperand (Text.trim t) := by
  rw [read]
  split
  · rfl
  · split
    · next c h => rw [h]; simp
    · next h => rw [h]

end Expression

end Flowchart
