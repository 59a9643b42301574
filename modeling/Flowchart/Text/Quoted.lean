import Flowchart.Text.Basic

/-!
# Quoted text in reports

A report of a run shows a string value between quotation marks, on one line and with every character visible.
The quotation mark and the backslash are written with a backslash before them, the usual four controls by
their letters, and every character that cannot be seen by itself by its code point in hexadecimal.

* `escape` — how one character is written.
* `quote` — a whole string in quotation marks.
-/

namespace Flowchart.Text

/-- A character that cannot be told from a report: a control, a format character, a separator other than the
space, or a mark that attaches to the character before it. -/
def isHidden (c : Char) : Bool :=
  if c.toNat < 128 then c.toNat < 32 || c.toNat == 127
  else Ranges.unprintable.holds c.toNat || Ranges.graphemeExtender.holds c.toNat

/-- The code point of a character in hexadecimal, lower case, without leading noughts. -/
def hexadecimal (n : Nat) : Text := Nat.toDigits 16 n

/-- How a character is written between quotation marks. -/
def escape (c : Char) : Text :=
  if c = '"' then ['\\', '"']
  else if c = '\\' then ['\\', '\\']
  else if c = '\n' then ['\\', 'n']
  else if c = '\r' then ['\\', 'r']
  else if c = '\t' then ['\\', 't']
  else if c.toNat = 0 then ['\\', '0']
  else if isHidden c then ['\\', 'u', '\x7b'] ++ hexadecimal c.toNat ++ ['\x7d']
  else [c]

/-- A string as a report shows it: in quotation marks, its characters escaped. -/
def quote (s : String) : String :=
  String.ofList ('"' :: s.toList.flatMap escape ++ ['"'])

end Flowchart.Text
