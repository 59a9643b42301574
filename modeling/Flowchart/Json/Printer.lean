import Flowchart.Decimal.Display
import Flowchart.Json.Basic

/-!
# Writing JSON

A document is written in one of two layouts: *compact*, without any blanks, and *pretty*, with every element
and every member on a line of its own, indented by two spaces for each level.  Strings are written with the
fewest escapes that the grammar allows.

* `escape`, `stringText` — strings.
* `compact`, `pretty` — the two layouts.
-/

namespace Flowchart.Json

/-- Four hexadecimal digits, lower case. -/
def fourHex (n : Nat) : Text :=
  let digits := Nat.toDigits 16 n
  List.replicate (4 - digits.length) '0' ++ digits

/-- How a character is written in a string: the quotation mark, the backslash and the controls are escaped. -/
def escape (c : Char) : Text :=
  match c with
  | '"' => ['\\', '"']
  | '\\' => ['\\', '\\']
  | '\x08' => ['\\', 'b']
  | '\x0c' => ['\\', 'f']
  | '\n' => ['\\', 'n']
  | '\r' => ['\\', 'r']
  | '\t' => ['\\', 't']
  | c => if c.toNat < 32 then '\\' :: 'u' :: fourHex c.toNat else [c]

/-- A string in quotation marks. -/
def stringText (s : Text) : Text := '"' :: s.flatMap escape ++ ['"']

/-- The text of a string of a document; one that is no text has no better form than the empty string. -/
def jsonStringText (s : JsonString) : Text := stringText (s.getD "").toList

mutual

/-- A document without blanks. -/
def compact : Json → Text
  | .null => "null".toList
  | .bool b => if b then "true".toList else "false".toList
  | .number literal => literal
  | .string s => jsonStringText s
  | .array elements => '[' :: compactElements elements ++ [']']
  | .object members => '\x7b' :: compactMembers members ++ ['\x7d']

/-- Elements with commas between them. -/
def compactElements : List Json → Text
  | [] => []
  | [value] => compact value
  | value :: rest => compact value ++ ',' :: compactElements rest

/-- Members with commas between them. -/
def compactMembers : List (JsonString × Json) → Text
  | [] => []
  | [(name, value)] => jsonStringText name ++ ':' :: compact value
  | (name, value) :: rest => jsonStringText name ++ ':' :: compact value ++ ',' :: compactMembers rest

end

/-- A new line at a level. -/
def newLine (level : Nat) : Text := '\n' :: List.replicate (2 * level) ' '

mutual

/-- A document with one element or member on each line, at a level. -/
def pretty (level : Nat) : Json → Text
  | .null => "null".toList
  | .bool b => if b then "true".toList else "false".toList
  | .number literal => literal
  | .string s => jsonStringText s
  | .array [] => ['[', ']']
  | .array (value :: rest) =>
    '[' :: newLine (level + 1) ++ pretty (level + 1) value ++ prettyElements (level + 1) rest
      ++ newLine level ++ [']']
  | .object [] => ['\x7b', '\x7d']
  | .object ((name, value) :: rest) =>
    '\x7b' :: newLine (level + 1) ++ jsonStringText name ++ ':' :: ' ' :: pretty (level + 1) value
      ++ prettyMembers (level + 1) rest ++ newLine level ++ ['\x7d']

/-- Elements after the first, each after a comma on a new line. -/
def prettyElements (level : Nat) : List Json → Text
  | [] => []
  | value :: rest => ',' :: newLine level ++ pretty level value ++ prettyElements level rest

/-- Members after the first, each after a comma on a new line. -/
def prettyMembers (level : Nat) : List (JsonString × Json) → Text
  | [] => []
  | (name, value) :: rest =>
    ',' :: newLine level ++ jsonStringText name ++ ':' :: ' ' :: pretty level value ++ prettyMembers level rest

end

end Flowchart.Json
