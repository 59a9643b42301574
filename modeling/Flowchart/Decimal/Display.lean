import Flowchart.Text.Basic
import Flowchart.Decimal.Shortest

/-!
# How floats are written

Two forms are in use.  The *display* form is what a program prints: always positional, with a point, and for a
whole number with every digit of its exact value.  The *interchange* form is what a JSON document holds: the
shortest decimal, positional as long as the point lies within or just before the digits and with an exponent
otherwise.

* `digitsOf`, `integerText` — natural and whole numbers.
* `display` — the form that programs print.
* `interchange?` — the form of JSON documents, which has no text for a float that is not a number or infinite.
-/

namespace Flowchart.Decimal

/-- The decimal digits of a natural number, without leading noughts. -/
def digitsOf (n : Nat) : Text := Nat.toDigits 10 n

/-- A whole number: its digits, with a minus in front of a negative one. -/
def integerText (n : Int) : Text :=
  match n with
  | .ofNat k => digitsOf k
  | .negSucc k => '-' :: digitsOf (k + 1)

/-- A text of at least the given length, filled with noughts on the left. -/
def padded (width : Nat) (t : Text) : Text := List.replicate (width - t.length) '0' ++ t

/-- A decimal with the point at its place, at least one digit before and one after it. -/
def positional (a : Amount) : Text :=
  if a.places ≤ 0 then digitsOf (a.digits * Nat.pow 10 (-a.places).toNat) ++ ['.', '0']
  else
    let unit := Nat.pow 10 a.places.toNat
    digitsOf (a.digits / unit) ++ '.' :: padded a.places.toNat (digitsOf (a.digits % unit))

/-- A minus in front of a negative float, nought included. -/
def withSign (negative : Bool) (t : Text) : Text := if negative then '-' :: t else t

/-- The form that programs print: a whole number with all its digits and one place, any other float by its
shortest decimal.  Of two shortest decimals equally near, the upper one is printed. -/
def display (x : Float) : Text :=
  match Shape.of x with
  | .notANumber => "NaN".toList
  | .infinite negative => withSign negative "inf".toList
  | .finite b =>
    withSign b.negative <|
      match b.whole? with
      | some n => digitsOf n ++ ['.', '0']
      | none => positional (shortest .up b)

/-- A decimal with one digit before the point and an exponent. -/
def scientific (digits : Text) (exponent : Int) : Text :=
  match digits with
  | [] => []
  | [d] => d :: 'e' :: integerText exponent
  | d :: rest => d :: '.' :: rest ++ 'e' :: integerText exponent

/-- The form of JSON documents: positional while the point lies at most sixteen digits after the start and at
most five places before it, with an exponent otherwise. -/
def interchange? (x : Float) : Option Text :=
  match Shape.of x with
  | .notANumber => none
  | .infinite _ => none
  | .finite b =>
    let a := shortest .toEven b
    let digits := digitsOf a.digits
    let point : Int := digits.length - a.places
    some <| withSign b.negative <|
      if -5 < point && point ≤ 16 then positional a else scientific digits (point - 1)

end Flowchart.Decimal
