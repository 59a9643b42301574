import Flowchart.Decimal.Binary

/-!
# The shortest decimal that reads back

Between a positive float and its two neighbours lie the real numbers that are rounded to it.  The text of a
float is the shortest decimal in that interval, and among the shortest the one nearest to the float.

For one digit, two digits and so on, the decimals with that many digits form a grid.  If a point of the grid
lies in the interval, so does one of the two grid points next to the float, because the float itself lies in
the interval; it is therefore enough to try those two.  Seventeen digits always suffice.  All comparisons are
made between natural numbers, so nothing is lost to rounding.

* `Amount` — a decimal: digits and a number of decimal places.
* `Tie` — what happens when both grid points are equally near.
* `Interval` — the reals that are rounded to a float, as fractions over one denominator.
* `shortest` — the search.
-/

namespace Flowchart.Decimal

/-- The decimal `digits / 10 ^ places`; a negative number of places stands for noughts at the end. -/
structure Amount where
  digits : Nat
  places : Int
  deriving Repr, DecidableEq

/-- Which of two equally near decimals is taken. -/
inductive Tie where
  | up
  | toEven
  deriving Repr, DecidableEq

/-- The reals that are rounded to one float: from `low / unit` to `high / unit` around `value / unit`, both
ends included or both left out. -/
structure Interval where
  low : Nat
  value : Nat
  high : Nat
  unit : Nat
  closed : Bool
  deriving Repr, DecidableEq

/-- The interval of a finite float.  Its ends lie half way to the neighbours, and an end is rounded to the
neighbour with the even mantissa. -/
def Binary.interval (b : Binary) : Interval :=
  let scale := Nat.pow 2 (b.exponent - 2).toNat
  { low := (4 * b.mantissa - (if b.narrowBelow then 1 else 2)) * scale
    value := 4 * b.mantissa * scale
    high := (4 * b.mantissa + 2) * scale
    unit := Nat.pow 2 (2 - b.exponent).toNat
    closed := b.mantissa % 2 == 0 }

namespace Interval

/-- A point of the grid with the given number of decimal places lies in the interval. -/
def contains (i : Interval) (a : Amount) : Bool :=
  let up := Nat.pow 10 a.places.toNat
  let point := a.digits * i.unit * Nat.pow 10 (-a.places).toNat
  if i.closed then i.low * up ≤ point && point ≤ i.high * up
  else i.low * up < point && point < i.high * up

/-- The nearest point of a grid that lies in the interval, if one does. -/
def onGrid? (i : Interval) (tie : Tie) (places : Int) : Option Amount :=
  let above := i.value * Nat.pow 10 places.toNat
  let below := i.unit * Nat.pow 10 (-places).toNat
  let floor := above / below
  let rest := above % below
  let lower : Amount := ⟨floor, places⟩
  let upper : Amount := ⟨floor + 1, places⟩
  match i.contains lower, i.contains upper with
  | true, true =>
    if 2 * rest < below then some lower
    else if below < 2 * rest then some upper
    else match tie with
      | .up => some upper
      | .toEven => if floor % 2 = 0 then some lower else some upper
  | true, false => some lower
  | false, true => some upper
  | false, false => none

/-- The number of digits before the point; nought or less for a value below one. -/
def magnitude (i : Interval) : Int :=
  if i.unit ≤ i.value then (Nat.toDigits 10 (i.value / i.unit)).length
  else 1 - (Nat.toDigits 10 (i.unit / i.value)).length

/-- Tries the grids of growing length. -/
def search (i : Interval) (tie : Tie) (places : Int) : Nat → Option Amount
  | 0 => none
  | rounds + 1 =>
    match i.onGrid? tie places with
    | some a => some a
    | none => i.search tie (places + 1) rounds

end Interval

/-- A decimal without noughts at its end. -/
def Amount.strip (a : Amount) : Nat → Amount
  | 0 => a
  | rounds + 1 =>
    if a.digits % 10 = 0 && a.digits != 0 then Amount.strip ⟨a.digits / 10, a.places - 1⟩ rounds else a

/-- The shortest decimal that is rounded to the float, without its sign. -/
def shortest (tie : Tie) (b : Binary) : Amount :=
  if b.mantissa = 0 then ⟨0, 0⟩
  else
    let i := b.interval
    match i.search tie (1 - i.magnitude) 17 with
    | some a => a.strip 17
    | none => ⟨0, 0⟩

end Flowchart.Decimal
