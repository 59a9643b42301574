import Flowchart.Decimal.Display
import Flowchart.Decimal.Reading

/-!
# Values

A flowchart computes with whole numbers of 64 bits, floats, truth values and strings.

* `Value` — the four sorts, with the text that a program prints (`Value.display`) and the name of the sort.
* `Value.asFloat?` — the numeric view that comparisons use.
* `Value.isTruthy` — what a value counts for where a condition is expected.
* `int64Of?` — a whole number as a 64-bit number, when it fits.
-/

namespace Flowchart

/-- The values of variables and expressions. -/
inductive Value where
  | int (n : Int64)
  | float (x : Float)
  | bool (b : Bool)
  | text (s : String)
  deriving DecidableEq

/-- The 64-bit number equal to a whole number, when there is one. -/
def int64Of? (n : Int) : Option Int64 :=
  if Int64.minValue.toInt ≤ n ∧ n ≤ Int64.maxValue.toInt then some (Int64.ofInt n) else none

/-- A number that fits is the number it was made from. -/
theorem toInt_of_int64Of {n : Int} {k : Int64} (h : int64Of? n = some k) : k.toInt = n := by
  unfold int64Of? at h
  split at h
  · next hn =>
    cases h
    have hlow : -9223372036854775808 ≤ n := hn.1
    have hhigh : n ≤ 9223372036854775807 := hn.2
    exact Int64.toInt_ofInt_of_le (by omega) (by omega)
  · cases h

/-- Every 64-bit number fits. -/
theorem int64Of?_toInt (k : Int64) : int64Of? k.toInt = some k := by
  have hlow := k.le_toInt
  have hhigh := k.toInt_lt
  have h : Int64.minValue.toInt ≤ k.toInt ∧ k.toInt ≤ Int64.maxValue.toInt :=
    ⟨hlow, Int.le_of_lt_add_one hhigh⟩
  rw [int64Of?, if_pos h, Int64.ofInt_toInt]

namespace Value

/-- The number that a value is compared as; truth values and strings are none. -/
def asFloat? : Value → Option Float
  | int n => some (Float.ofInt n.toInt)
  | float x => some x
  | bool _ => none
  | text _ => none

/-- Whole numbers and floats are numbers. -/
def isNumber : Value → Bool
  | int _ => true
  | float _ => true
  | bool _ => false
  | text _ => false

/-- What a value counts for as a condition: a truth value for itself, a number for being other than nought, a
string for false. -/
def isTruthy : Value → Bool
  | bool b => b
  | int n => n != 0
  | float x => x != 0.0
  | text _ => false

/-- The name of the sort of a value. -/
def sortName : Value → String
  | int _ => "int"
  | float _ => "double"
  | bool _ => "bool"
  | text _ => "string"

/-- The text of a value, as a list of characters. -/
def displayText : Value → Text
  | int n => Decimal.integerText n.toInt
  | float x => Decimal.display x
  | bool b => if b then "true".toList else "false".toList
  | text s => s.toList

/-- The text of a value, as a program prints it. -/
def display (v : Value) : String := String.ofList v.displayText

end Value

end Flowchart
