import Flowchart.Text.Basic

/-!
# Reading decimals

A decimal is digits, perhaps a point and more digits, perhaps an exponent, all in ASCII, with a sign in front
if there is one.  It is read to the nearest float.  The words for the infinities and for what is not a number
are read as well, in any mixture of upper and lower case.

* `natural?`, `integer?` — digits alone, and digits with a minus in front.
* `nearest` — the float nearest to a decimal.
* `read?` — a whole text as a float.
-/

namespace Flowchart.Decimal

/-- The number written by decimal digits. -/
def ofDigits (digits : Text) : Nat := Nat.ofDigitChars 10 digits 0

/-- A natural number: one or more ASCII digits and nothing else. -/
def natural? (t : Text) : Option Nat :=
  if !t.isEmpty && t.all Char.isDigit then some (ofDigits t) else none

/-- A whole number: one or more ASCII digits, perhaps after a minus. -/
def integer? (t : Text) : Option Int :=
  match t with
  | '-' :: digits => (natural? digits).map fun n => -(n : Int)
  | _ => (natural? t).map Int.ofNat

/-- The float nearest to `digits · 10 ^ exponent`.  A decimal far outside the range of floats is settled by its
size alone. -/
def nearest (digits : Nat) (exponent : Int) : Float :=
  let size := (Nat.toDigits 10 digits).length + exponent
  if digits = 0 || size < -400 then 0.0
  else if 400 < size then Float.ofScientific 1 false 400
  else if 0 ≤ exponent then Float.ofScientific digits false exponent.toNat
  else Float.ofScientific digits true (-exponent).toNat

/-- The value of an exponent mark with its digits; no text stands for no exponent. -/
def exponent? (t : Text) : Option Int :=
  match t with
  | [] => some 0
  | c :: rest =>
    if c = 'e' || c = 'E' then
      match rest with
      | '+' :: digits => (natural? digits).map Int.ofNat
      | _ => integer? rest
    else none

/-- A decimal without a sign. -/
def unsigned? (t : Text) : Option Float :=
  let whole := t.takeWhile Char.isDigit
  let (fraction, rest) : Text × Text :=
    match t.dropWhile Char.isDigit with
    | '.' :: rest => (rest.takeWhile Char.isDigit, rest.dropWhile Char.isDigit)
    | rest => ([], rest)
  if whole.isEmpty && fraction.isEmpty then none
  else (exponent? rest).map fun e => nearest (ofDigits (whole ++ fraction)) (e - fraction.length)

/-- A float without a sign: a decimal, or one of the words that stand for other floats. -/
def magnitude? (t : Text) : Option Float :=
  let word := t.map Char.toLower
  if word = "inf".toList || word = "infinity".toList then some (1.0 / 0.0)
  else if word = "nan".toList then some (0.0 / 0.0)
  else unsigned? t

/-- The float that a whole text stands for. -/
def read? (t : Text) : Option Float :=
  match t with
  | '-' :: rest => (magnitude? rest).map Float.neg
  | '+' :: rest => magnitude? rest
  | _ => magnitude? t

end Flowchart.Decimal
