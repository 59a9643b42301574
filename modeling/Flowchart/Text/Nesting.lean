import Flowchart.Text.Basic

/-!
# Quotes and parentheses

Some characters mean something only at the top level of a text: outside double quotes and outside
parentheses.  The readers keep track of both while they go through a text from left to right.  A quotation mark
always changes between quoted and unquoted; a parenthesis counts only where the text is unquoted.

* `Nesting` — how deep, and whether quoted, a reader is; `Nesting.next` moves past one character.
* `splitTop` — cuts a text at every top-level separator.
* `closing` — divides a text at the parenthesis that closes the first one.
* `closingOffset?` — the byte offset of that parenthesis, for an opening one given by its byte offset.
* `enclosed?` — what stands between two parentheses that enclose a whole text.
-/

namespace Flowchart

/-- Where a reader stands: how many parentheses are open, and whether a quotation is. -/
structure Nesting where
  depth : Nat := 0
  quoted : Bool := false
  deriving Repr, DecidableEq

namespace Nesting

/-- At the top level nothing is open. -/
def isTop (n : Nesting) : Bool := n.depth == 0 && !n.quoted

/-- The place after one more character.  A closing parenthesis with nothing to close changes nothing. -/
def next (n : Nesting) (c : Char) : Nesting :=
  if c = '"' then { n with quoted := !n.quoted }
  else if n.quoted then n
  else if c = '(' then { n with depth := n.depth + 1 }
  else if c = ')' then { n with depth := n.depth - 1 }
  else n

/-- The characters that open and close: they never separate. -/
def isDelimiter (c : Char) : Bool := c == '"' || c == '(' || c == ')'

end Nesting

namespace Text

/-- Puts a character in front of the first part of a cut text. -/
def consFirst (c : Char) : List Text → List Text
  | [] => [[c]]
  | part :: parts => (c :: part) :: parts

/-- Cuts a text at each separator met at the top level, starting from a given nesting. -/
def splitFrom (separator : Char) : Nesting → Text → List Text
  | _, [] => [[]]
  | n, c :: t =>
    if c = separator && n.isTop && !Nesting.isDelimiter c then [] :: splitFrom separator n t
    else consFirst c (splitFrom separator (n.next c) t)

/-- The parts of a text between its top-level separators; a text without one is its only part. -/
def splitTop (separator : Char) (t : Text) : List Text := splitFrom separator {} t

/-- Every part is at most as long as the text it is cut from. -/
theorem length_le_of_mem_splitFrom {separator : Char} {t part : Text} {n : Nesting}
    (h : part ∈ splitFrom separator n t) : part.length ≤ t.length := by
  induction t generalizing n part with
  | nil => simp [splitFrom] at h; simp [h]
  | cons c t ih =>
    rw [splitFrom] at h
    split at h
    · rcases List.mem_cons.mp h with rfl | h
      · simp
      · have := ih h
        simp only [List.length_cons]; omega
    · cases hs : splitFrom separator (n.next c) t with
      | nil =>
        rw [hs] at h
        simp only [consFirst, List.mem_singleton] at h
        simp [h]
      | cons p ps =>
        rw [hs] at h
        simp only [consFirst, List.mem_cons] at h
        rcases h with rfl | h
        · have : p.length ≤ t.length := ih (by rw [hs]; exact List.mem_cons_self)
          simp only [List.length_cons]; omega
        · have : part.length ≤ t.length := ih (by rw [hs]; exact List.mem_cons_of_mem p h)
          simp only [List.length_cons]; omega

theorem length_le_of_mem_splitTop {separator : Char} {t part : Text} (h : part ∈ splitTop separator t) :
    part.length ≤ t.length :=
  length_le_of_mem_splitFrom h

/-- Divides a text at the parenthesis that closes the outermost open one: what stands before it and what
follows it.  `depth` parentheses are open already.  A closing parenthesis with nothing to close ends the
search, and so does the end of the text. -/
def closing : Nat → Bool → Text → Option (Text × Text)
  | _, _, [] => none
  | depth, quoted, c :: t =>
    if c = '"' then (closing depth (!quoted) t).map fun p => (c :: p.1, p.2)
    else if !quoted && c = '(' then (closing (depth + 1) quoted t).map fun p => (c :: p.1, p.2)
    else if !quoted && c = ')' then
      if depth = 0 then none
      else if depth = 1 then some ([], t)
      else (closing (depth - 1) quoted t).map fun p => (c :: p.1, p.2)
    else (closing depth quoted t).map fun p => (c :: p.1, p.2)

/-- The two sides of the closing parenthesis, with it between them, are the text. -/
theorem eq_append_of_closing {depth : Nat} {quoted : Bool} {t before rest : Text}
    (h : closing depth quoted t = some (before, rest)) : t = before ++ ')' :: rest := by
  induction t generalizing depth quoted before with
  | nil => simp [closing] at h
  | cons c t ih =>
    rw [closing] at h
    split at h
    · obtain ⟨⟨b, r⟩, hp, he⟩ := Option.map_eq_some_iff.mp h
      cases he; rw [ih hp]; rfl
    · split at h
      · obtain ⟨⟨b, r⟩, hp, he⟩ := Option.map_eq_some_iff.mp h
        cases he; rw [ih hp]; rfl
      · split at h
        · next hc =>
          simp only [Bool.and_eq_true, decide_eq_true_eq] at hc
          split at h
          · cases h
          split at h
          · cases h; rw [hc.2]; rfl
          · obtain ⟨⟨b, r⟩, hp, he⟩ := Option.map_eq_some_iff.mp h
            cases he; rw [ih hp]; rfl
        · obtain ⟨⟨b, r⟩, hp, he⟩ := Option.map_eq_some_iff.mp h
          cases he; rw [ih hp]; rfl

/-- The number of bytes a text takes in UTF-8. -/
def byteSize : Text → Nat
  | [] => 0
  | c :: t => c.utf8Size + byteSize t

/-- The text from a byte offset on, with the offset its first character really has.  An offset inside a
character moves on to the next one. -/
def fromOffset (offset : Nat) : Nat → Text → Nat × Text
  | start, [] => (start, [])
  | start, c :: t => if offset ≤ start then (start, c :: t) else fromOffset offset (start + c.utf8Size) t

/-- The byte offset of the parenthesis that closes the one at byte offset `opening`, quoted text left out. -/
def closingOffset? (t : Text) (opening : Nat) : Option Nat :=
  let (start, rest) := fromOffset opening 0 t
  (closing 0 false rest).map fun p => start + byteSize p.1

/-- What two matching parentheses enclose, when they are the first and the last character of the text. -/
def enclosed? (t : Text) : Option Text :=
  match t with
  | '(' :: _ =>
    match closing 0 false t with
    | some (before, []) => some before.tail
    | _ => none
  | _ => none

/-- What is enclosed is shorter than the text. -/
theorem length_lt_of_enclosed {t inner : Text} (h : enclosed? t = some inner) : inner.length < t.length := by
  unfold enclosed? at h
  split at h
  · split at h
    · next before hc =>
      cases h
      rw [eq_append_of_closing hc]
      simp only [List.length_tail, List.length_append, List.length_cons, List.length_nil]
      omega
    · cases h
  · cases h

end Text

end Flowchart
