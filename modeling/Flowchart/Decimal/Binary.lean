/-!
# What a float is made of

A float is not a number, an infinity, or a signed whole multiple of a power of two.  This file takes a float
apart by its bit pattern, so that everything the library says about the text of a float is said about natural
numbers.

* `Binary` — the signed multiple `± mantissa · 2 ^ exponent`, with a mark for the powers of two, whose lower
  neighbour is only half as far away as their upper one.
* `Shape` — the three sorts of float; `Shape.of` reads the bit pattern.
* `Binary.whole?` — the absolute value, when it is a whole number.
-/

namespace Flowchart.Decimal

/-- A finite float: `± mantissa · 2 ^ exponent`. -/
structure Binary where
  negative : Bool
  mantissa : Nat
  exponent : Int
  /-- The float below is at half the distance of the float above. -/
  narrowBelow : Bool
  deriving Repr, DecidableEq

/-- The three sorts of float. -/
inductive Shape where
  | notANumber
  | infinite (negative : Bool)
  | finite (parts : Binary)
  deriving Repr, DecidableEq

/-- The sort of a float, read from its 64 bits: sign, eleven bits of exponent, 52 bits of fraction. -/
def Shape.of (x : Float) : Shape :=
  let bits : Nat := x.toBits.toNat
  let negative := bits / Nat.pow 2 63 == 1
  let power : Nat := bits / Nat.pow 2 52 % Nat.pow 2 11
  let fraction : Nat := bits % Nat.pow 2 52
  if power = 2047 then
    if fraction = 0 then .infinite negative else .notANumber
  else if power = 0 then
    .finite { negative, mantissa := fraction, exponent := -1074, narrowBelow := false }
  else
    .finite {
      negative, mantissa := fraction + Nat.pow 2 52, exponent := (power : Int) - 1075,
      narrowBelow := fraction == 0 && power != 1 }

/-- The absolute value, when it is a whole number. -/
def Binary.whole? (b : Binary) : Option Nat :=
  if 0 ≤ b.exponent then some (b.mantissa * Nat.pow 2 b.exponent.toNat)
  else
    let unit : Nat := Nat.pow 2 (-b.exponent).toNat
    if b.mantissa % unit = 0 then some (b.mantissa / unit) else none

end Flowchart.Decimal
