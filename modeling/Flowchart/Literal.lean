import Flowchart.Text.Nesting
import Flowchart.Text.Words
import Flowchart.Value

/-!
# The words of the label language

Labels are made of numerals, quoted strings, names and calls.  This file recognises each of them in a text
that is to be nothing else.

* `isWholeNumeral`, `isDecimalNumeral`, `numeral?` — numerals and their values.  The digits of every script
  make a numeral, but only ASCII digits have a value: a whole numeral without a value, like one beyond the
  range of floats, reads as infinity.
* `quoted?` — what stands between two quotation marks.
* `Call`, `call?` — a name with arguments in parentheses that end the text.
* `answer` — the value of a text that somebody has typed in.
-/

namespace Flowchart.Literal

/-! ### Numerals -/

/-- One or more decimal digits. -/
def isDigits (t : Text) : Bool := !t.isEmpty && t.all Text.isDigit

/-- A text without the minus it may begin with. -/
def withoutMinus : Text → Text
  | '-' :: t => t
  | t => t

/-- Decimal digits, perhaps after a minus. -/
def isWholeNumeral (t : Text) : Bool := isDigits (withoutMinus t)

/-- Decimal digits, a point and decimal digits, perhaps after a minus. -/
def isDecimalNumeral (t : Text) : Bool :=
  let u := withoutMinus t
  isDigits (u.takeWhile Text.isDigit) &&
    match u.dropWhile Text.isDigit with
    | '.' :: fraction => isDigits fraction
    | _ => false

/-- The 64-bit number written by a text. -/
def int64? (t : Text) : Option Int64 := (Decimal.integer? t).bind int64Of?

/-- The value of a whole numeral: a whole number when it fits, else the nearest float, else infinity. -/
def wholeValue (t : Text) : Value :=
  match int64? t with
  | some n => .int n
  | none => .float ((Decimal.read? t).getD (1.0 / 0.0))

/-- The number that a numeral stands for. -/
def numeral? (t : Text) : Option Value :=
  if isWholeNumeral t then some (wholeValue t)
  else if isDecimalNumeral t then (Decimal.read? t).map Value.float
  else none

/-- The value of a text that was typed in: a number if it is a numeral, else a string. -/
def answer (t : Text) : Value :=
  let trimmed := Text.trim t
  (numeral? trimmed).getD (.text (String.ofList trimmed))

/-! ### Quoted strings -/

/-- What stands between the quotation marks with which a text begins and ends. -/
def quoted? (t : Text) : Option Text :=
  match t with
  | '"' :: rest => if rest.getLast? = some '"' then some rest.dropLast else none
  | _ => none

/-! ### Calls -/

/-- A name applied to arguments that are still to be read. -/
structure Call where
  name : Text
  arguments : List Text
  deriving Repr, DecidableEq

/-- The arguments between the parentheses of a call: none in an empty pair, else the parts between top-level
commas, trimmed. -/
def arguments (inner : Text) : List Text :=
  if inner.isEmpty then [] else (Text.splitTop ',' inner).map Text.trim

/-- Reads a call: a name, and a pair of parentheses that ends the text. -/
def call? (t : Text) : Option Call :=
  let name := Text.trimEnd (t.takeWhile (· != '('))
  if Text.isName name then
    (Text.enclosed? (t.dropWhile (· != '('))).map fun inner =>
      { name, arguments := arguments (Text.trim inner) }
  else none

/-- Every argument of a call is shorter than the call. -/
theorem length_lt_of_mem_arguments {t a : Text} {c : Call} (h : call? t = some c) (ha : a ∈ c.arguments) :
    a.length < t.length := by
  simp only [call?] at h
  split at h
  · obtain ⟨inner, hi, he⟩ := Option.map_eq_some_iff.mp h
    subst he
    have hlt := Text.length_lt_of_enclosed hi
    have hdrop := Text.length_dropWhile_le (· != '(') t
    have htrim := Text.length_trim_le inner
    simp only [arguments] at ha
    split at ha
    · cases ha
    · obtain ⟨part, hp, rfl⟩ := List.mem_map.mp ha
      have hpart := Text.length_le_of_mem_splitTop hp
      have := Text.length_trim_le part
      omega
  · cases h

end Flowchart.Literal
