import Flowchart.Text.Ranges

/-!
# Text, its character classes and its margins

Labels are read character by character, so the text still to be read is a list of characters: every reader
of the library is a recursion on it.  Finished names and finished output are strings.

This file holds what all readers share:

* `isBlank`, `isDigit`, `isWord` — the Unicode classes that decide where a margin, a numeral or a word ends.
  ASCII characters are decided directly, all others by a table.
* `trimStart`, `trimEnd`, `trim` — a text without the blanks at its margins, with the lemmas that trimming
  never lengthens a text and that a trimmed text has no blank at either end.
* `split_run` — the run of characters of one class at the beginning of a text, and what is behind it.
* `after?` — what is left of a text once an expected beginning is taken off.
-/

namespace Flowchart

/-- Text that is still to be read: its characters, first one first. -/
abbrev Text := List Char

namespace Text

/-! ### Character classes -/

/-- White space in the sense of Unicode: the characters that separate words and fill margins. -/
def isBlank (c : Char) : Bool :=
  let n := c.toNat
  (9 ≤ n && n ≤ 13) || n == 32 || n == 0x85 || n == 0xA0 || n == 0x1680 || (0x2000 ≤ n && n ≤ 0x200A)
    || n == 0x2028 || n == 0x2029 || n == 0x202F || n == 0x205F || n == 0x3000

/-- A decimal digit of any script. -/
def isDigit (c : Char) : Bool :=
  if c.toNat < 128 then c.isDigit else Ranges.decimalDigit.holds c.toNat

/-- A letter of the ASCII alphabet or the underscore: what a name begins with. -/
def isNameStart (c : Char) : Bool := c.isAlpha || c == '_'

/-- An ASCII letter, an ASCII digit or the underscore: what a name goes on with. -/
def isNamePart (c : Char) : Bool := c.isAlphanum || c == '_'

/-- A character of which words are made, in any script. -/
def isWord (c : Char) : Bool :=
  if c.toNat < 128 then isNamePart c else Ranges.wordCharacter.holds c.toNat

/-- Every decimal digit of ASCII is a decimal digit. -/
theorem isDigit_of_ascii {c : Char} (h : c.isDigit = true) : isDigit c = true := by
  have : c.toNat < 128 := by
    simp only [Char.isDigit, Bool.and_eq_true, decide_eq_true_eq, UInt32.le_iff_toNat_le] at h
    have := h.2
    simp only [Char.toNat]
    exact Nat.lt_of_le_of_lt this (by decide)
  simp [isDigit, this, h]

/-! ### Margins -/

/-- The text without the blanks it begins with. -/
def trimStart (t : Text) : Text := t.dropWhile isBlank

/-- The text without the blanks it ends with. -/
def trimEnd (t : Text) : Text := (t.reverse.dropWhile isBlank).reverse

/-- The text without the blanks at its two margins. -/
def trim (t : Text) : Text := trimEnd (trimStart t)

/-- Dropping a run of characters never lengthens a text. -/
theorem length_dropWhile_le (p : Char → Bool) (t : Text) : (t.dropWhile p).length ≤ t.length := by
  induction t with
  | nil => simp
  | cons c t ih =>
    rw [List.dropWhile_cons]
    split
    · simp only [List.length_cons]; omega
    · simp

theorem length_trimStart_le (t : Text) : (trimStart t).length ≤ t.length :=
  length_dropWhile_le isBlank t

theorem length_trimEnd_le (t : Text) : (trimEnd t).length ≤ t.length := by
  have := length_dropWhile_le isBlank t.reverse
  simpa [trimEnd] using this

/-- Trimming never lengthens a text. -/
theorem length_trim_le (t : Text) : (trim t).length ≤ t.length :=
  Nat.le_trans (length_trimEnd_le _) (length_trimStart_le t)

/-- The character a dropped run stops at is not in the run. -/
theorem head_dropWhile (p : Char → Bool) {t : Text} {c : Char} {r : Text} (h : t.dropWhile p = c :: r) :
    p c = false := by
  induction t with
  | nil => simp at h
  | cons a t ih =>
    rw [List.dropWhile_cons] at h
    split at h
    · exact ih h
    · next ha => cases h; simpa using ha

/-- A run of characters ends in front of one that does not belong to it. -/
theorem split_run {p : Char → Bool} {run rest : Text} (hrun : ∀ d ∈ run, p d = true)
    (hrest : ∀ d ∈ rest.head?, p d = false) :
    (run ++ rest).takeWhile p = run ∧ (run ++ rest).dropWhile p = rest := by
  rw [List.takeWhile_append_of_pos hrun, List.dropWhile_append_of_pos hrun]
  cases rest with
  | nil => exact ⟨List.append_nil _, rfl⟩
  | cons d rest =>
    have hd : ¬p d = true := by rw [hrest d rfl]; exact Bool.false_ne_true
    rw [List.takeWhile_cons_of_neg hd, List.dropWhile_cons_of_neg hd]
    exact ⟨List.append_nil _, rfl⟩

/-- A trimmed text does not begin with a blank. -/
theorem head_trimStart {t : Text} {c : Char} {r : Text} (h : trimStart t = c :: r) : isBlank c = false :=
  head_dropWhile isBlank h

/-! ### Beginnings -/

/-- The rest of a text that begins with the given characters; `none` when it does not. -/
def after? : Text → Text → Option Text
  | [], t => some t
  | _ :: _, [] => none
  | b :: bs, c :: t => if b = c then after? bs t else none

/-- A text begins with what `after?` takes off, and goes on with what it leaves. -/
theorem after?_eq_some_iff {start t r : Text} : after? start t = some r ↔ t = start ++ r := by
  induction start generalizing t with
  | nil => simp [after?]
  | cons b bs ih =>
    cases t with
    | nil => simp [after?]
    | cons c t =>
      by_cases h : b = c
      · subst h; simp [after?, ih]
      · simp [after?, h, Ne.symm h]

end Text

end Flowchart
