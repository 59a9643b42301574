import Flowchart.Json.Basic

/-!
# Reading JSON

The grammar is read strictly: no comments, no commas at the end, no raw control characters in strings, nothing
but blanks after the document.  Every reader takes the text still to be read and gives back what it has read
together with the rest.

* `stringBody?` — the rest of a string after its opening quotation mark; halves of pairs are put together by
  `joinPairs`.
* `number?` — a number, kept by its letters.
* `value?`, `elements?`, `members?` — values.  Their allowance counts calls; every call reads at least one
  character, so the length of the text is enough.
* `Json.read?` — a whole text.
-/

namespace Flowchart.Json

/-- The blanks of the grammar. -/
def isSpace (c : Char) : Bool := c == ' ' || c == '\t' || c == '\n' || c == '\r'

/-- The text after its leading blanks. -/
def skip (t : Text) : Text := t.dropWhile isSpace

/-! ### Strings -/

/-- What a string is made of: characters written as themselves, and units given by number. -/
inductive Piece where
  | plain (c : Char)
  | unit (n : Nat)
  deriving Repr, DecidableEq

/-- The value of a hexadecimal digit. -/
def hexDigit? (c : Char) : Option Nat :=
  if c.isDigit then some (c.toNat - '0'.toNat)
  else if 'a' ≤ c && c ≤ 'f' then some (c.toNat - 'a'.toNat + 10)
  else if 'A' ≤ c && c ≤ 'F' then some (c.toNat - 'A'.toNat + 10)
  else none

/-- The number written by four hexadecimal digits. -/
def hexUnit? (a b c d : Char) : Option Nat := do
  let a ← hexDigit? a
  let b ← hexDigit? b
  let c ← hexDigit? c
  let d ← hexDigit? d
  pure (((a * 16 + b) * 16 + c) * 16 + d)

/-- The character that a one-letter escape stands for. -/
def shortEscape? (c : Char) : Option Char :=
  match c with
  | '"' => some '"'
  | '\\' => some '\\'
  | '/' => some '/'
  | 'b' => some '\x08'
  | 'f' => some '\x0c'
  | 'n' => some '\n'
  | 'r' => some '\r'
  | 't' => some '\t'
  | _ => none

/-- The pieces of a string up to its closing quotation mark, and the text after it. -/
def stringBody? : Text → Option (List Piece × Text)
  | [] => none
  | '"' :: t => some ([], t)
  | '\\' :: 'u' :: a :: b :: c :: d :: t => do
    let n ← hexUnit? a b c d
    let (pieces, rest) ← stringBody? t
    pure (.unit n :: pieces, rest)
  | '\\' :: e :: t => do
    let c ← shortEscape? e
    let (pieces, rest) ← stringBody? t
    pure (.plain c :: pieces, rest)
  | c :: t =>
    if c.toNat < 32 || c = '\\' then none
    else do
      let (pieces, rest) ← stringBody? t
      pure (.plain c :: pieces, rest)

/-- The first half of a pair. -/
def isHigh (n : Nat) : Bool := 0xD800 ≤ n && n < 0xDC00

/-- The second half of a pair. -/
def isLow (n : Nat) : Bool := 0xDC00 ≤ n && n < 0xE000

/-- The text made of the pieces, unless a half of a pair stands alone. -/
def joinPairs : List Piece → Option Text
  | [] => some []
  | .plain c :: rest => (joinPairs rest).map (c :: ·)
  | .unit high :: .unit low :: rest =>
    if isHigh high && isLow low then
      (joinPairs rest).map (Char.ofNat (0x10000 + (high - 0xD800) * 0x400 + (low - 0xDC00)) :: ·)
    else if isHigh high || isLow high then none
    else (joinPairs (.unit low :: rest)).map (Char.ofNat high :: ·)
  | .unit n :: rest => if isHigh n || isLow n then none else (joinPairs rest).map (Char.ofNat n :: ·)

/-- A string after its opening quotation mark. -/
def string? (t : Text) : Option (JsonString × Text) :=
  (stringBody? t).map fun p => ((joinPairs p.1).map String.ofList, p.2)

/-! ### Numbers -/

/-- One or more digits. -/
def digits? (t : Text) : Option (Text × Text) :=
  let digits := t.takeWhile Char.isDigit
  if digits.isEmpty then none else some (digits, t.dropWhile Char.isDigit)

/-- The part of a number before point and exponent: nought, or digits that do not begin with nought. -/
def whole? (t : Text) : Option (Text × Text) :=
  match t with
  | '0' :: rest => some (['0'], rest)
  | _ => digits? t

/-- A point with digits, if there is one. -/
def fraction? (t : Text) : Option (Text × Text) :=
  match t with
  | '.' :: rest => (digits? rest).map fun p => ('.' :: p.1, p.2)
  | _ => some ([], t)

/-- A sign, if there is one. -/
def sign (t : Text) : Text × Text :=
  match t with
  | '+' :: rest => (['+'], rest)
  | '-' :: rest => (['-'], rest)
  | _ => ([], t)

/-- An exponent, if there is one. -/
def exponent? (t : Text) : Option (Text × Text) :=
  match t with
  | [] => some ([], [])
  | c :: rest =>
    if c = 'e' || c = 'E' then
      (digits? (sign rest).2).map fun p => (c :: (sign rest).1 ++ p.1, p.2)
    else some ([], t)

/-- A number without its sign. -/
def magnitude? (t : Text) : Option (Text × Text) := do
  let (whole, t) ← whole? t
  let (fraction, t) ← fraction? t
  let (exponent, t) ← exponent? t
  pure (whole ++ fraction ++ exponent, t)

/-- A number. -/
def number? (t : Text) : Option (Text × Text) :=
  match t with
  | '-' :: rest => (magnitude? rest).map fun p => ('-' :: p.1, p.2)
  | _ => magnitude? t

/-! ### Values -/

/-- A value that is no number, no string, no array and no object, or else a number. -/
def scalar? (t : Text) : Option (Json × Text) :=
  match Text.after? "null".toList t with
  | some rest => some (.null, rest)
  | none =>
    match Text.after? "true".toList t with
    | some rest => some (.bool true, rest)
    | none =>
      match Text.after? "false".toList t with
      | some rest => some (.bool false, rest)
      | none => (number? t).map fun p => (.number p.1, p.2)

/-- The name of a member, with the colon after it. -/
def memberName? (t : Text) : Option (JsonString × Text) :=
  match t with
  | '"' :: rest => do
    let (name, rest) ← string? rest
    match skip rest with
    | ':' :: rest => some (name, rest)
    | _ => none
  | _ => none

mutual

/-- A value after leading blanks. -/
def value? : Nat → Text → Option (Json × Text)
  | 0, _ => none
  | n + 1, t =>
    match skip t with
    | '"' :: rest => (string? rest).map fun p => (.string p.1, p.2)
    | '[' :: rest =>
      match skip rest with
      | ']' :: rest => some (.array [], rest)
      | rest => (elements? n rest).map fun p => (.array p.1, p.2)
    | '\x7b' :: rest =>
      match skip rest with
      | '\x7d' :: rest => some (.object [], rest)
      | rest => (members? n rest).map fun p => (.object p.1, p.2)
    | rest => scalar? rest

/-- One or more values with commas between them, and the bracket that closes the array. -/
def elements? : Nat → Text → Option (List Json × Text)
  | 0, _ => none
  | n + 1, t => do
    let (value, rest) ← value? n t
    match skip rest with
    | ',' :: rest => do
      let (values, rest) ← elements? n rest
      pure (value :: values, rest)
    | ']' :: rest => some ([value], rest)
    | _ => none

/-- One or more members with commas between them, and the brace that closes the object. -/
def members? : Nat → Text → Option (List (JsonString × Json) × Text)
  | 0, _ => none
  | n + 1, t => do
    let (name, rest) ← memberName? (skip t)
    let (value, rest) ← value? n rest
    match skip rest with
    | ',' :: rest => do
      let (members, rest) ← members? n rest
      pure ((name, value) :: members, rest)
    | '\x7d' :: rest => some ([(name, value)], rest)
    | _ => none

end

/-- A whole text as a document. -/
def read? (t : Text) : Option Json :=
  match value? (t.length + 1) t with
  | some (value, rest) => if (skip rest).isEmpty then some value else none
  | none => none

end Flowchart.Json
