import Flowchart.Decimal.Reading

/-!
# JSON documents

A document is kept as it was written, as far as a reader can tell the difference: the members of an object stay
in order and may repeat a name, and a number is kept by its digits.  An escape in a string can name half of a
pair that makes one character; such a string is no text, but a document that holds it is still a document, and
it can be passed over.

* `JsonString` — the text of a string, or nothing when it is no text.
* `Json` — documents.
* `Json.fields?` — the members of a record that is written as an object or as an array.
* `Json.natural?`, `Json.integer?`, `Json.float?`, `Json.text?` — the simple values.
-/

namespace Flowchart

/-- The text of a string in a document; `none` when an escape in it is half of a pair. -/
abbrev JsonString := Option String

/-- A document. -/
inductive Json where
  | null
  | bool (b : Bool)
  | number (literal : Text)
  | string (s : JsonString)
  | array (elements : List Json)
  | object (members : List (JsonString × Json))

namespace Json

/-- A string of a document from its text. -/
def ofString (s : String) : Json := .string (some s)

/-- The number of a document for a natural number. -/
def ofNat (n : Nat) : Json := .number (Nat.toDigits 10 n)

/-- A member with a name that is text. -/
def member (name : String) (value : Json) : JsonString × Json := (some name, value)

/-- The text of a string that is text. -/
def text? : Json → Option String
  | .string s => s
  | _ => none

/-- A natural number below 2^64, written without sign, point and exponent. -/
def natural? : Json → Option Nat
  | .number literal => (Decimal.natural? literal).bind fun n => if n < Nat.pow 2 64 then some n else none
  | _ => none

/-- A whole number written without point and exponent.  `-0` is the float nought and no whole number. -/
def integer? : Json → Option Int
  | .number literal => if literal = ['-', '0'] then none else Decimal.integer? literal
  | _ => none

/-- A number as a float; a number beyond the range of floats is none. -/
def float? : Json → Option Float
  | .number literal =>
    (Decimal.read? literal).bind fun x => if x.isFinite then some x else none
  | _ => none

/-- The values that a list of members gives to a name. -/
def valuesOf (name : String) (members : List (JsonString × Json)) : List Json :=
  (members.filter fun m => m.1 == some name).map Prod.snd

/-- The value of one field of an object: nothing when it is absent, a failure when it is repeated. -/
def field? (name : String) (members : List (JsonString × Json)) : Option (Option Json) :=
  match valuesOf name members with
  | [] => some none
  | [value] => some (some value)
  | _ => none

/-- The fields of a record, in the order in which they are named.  A record is an object, of which members with
other names are passed over, or an array of its first fields.  A name that is no text spoils the object. -/
def fields? (names : List String) : Json → Option (List (Option Json))
  | .object members =>
    if members.any fun m => m.1.isNone then none else names.mapM fun name => field? name members
  | .array elements =>
    if names.length < elements.length then none
    else some (elements.map some ++ List.replicate (names.length - elements.length) none)
  | _ => none

/-- The name that an enumeration without contents is written by: a string, or an object whose only member has
this name and no value. -/
def tag? : Json → Option String
  | .string s => s
  | .object [(name, .null)] => name
  | _ => none

/-- The elements of an array, all read in the same way. -/
def arrayOf? {α : Type} (read? : Json → Option α) : Json → Option (List α)
  | .array elements => elements.mapM read?
  | _ => none

end Json

end Flowchart
