import Flowchart.Text.Basic

/-!
# Words and names

A text falls into runs: longest stretches of word characters and longest stretches of other characters, one
after the other.  A *word* is a run of word characters, so it ends where no word character follows, in any
script.  A *name* is a word written in ASCII letters, digits and underscores that does not begin with a digit;
`été` or `x²ª` are words but not names, and no part of them is a name either.

* `runs` — the runs of a text in order; `flatten_runs` says that nothing is lost or added.
* `names` — the runs that are names.
* `replaceRuns` — the text with some of its runs replaced.
-/

namespace Flowchart.Text

/-- The longest stretches of word characters and of other characters, in order. -/
def runs : Text → List Text
  | [] => []
  | c :: t =>
    match runs t with
    | (d :: r) :: rest => if isWord c = isWord d then (c :: d :: r) :: rest else [c] :: (d :: r) :: rest
    | rest => [c] :: rest

/-- The runs of a text, put together, are the text. -/
theorem flatten_runs (t : Text) : (runs t).flatten = t := by
  induction t with
  | nil => rfl
  | cons c t ih =>
    rw [runs]
    split
    · next d r rest h =>
      rw [h] at ih
      split <;> simpa using ih
    · simp [ih]

/-- A name: an ASCII letter or underscore, then ASCII letters, digits and underscores. -/
def isName : Text → Bool
  | [] => false
  | c :: t => isNameStart c && t.all isNamePart

/-- The names that occur in a text as whole words, in order. -/
def names (t : Text) : List Text := (runs t).filter isName

/-- The text in which every run with a replacement is replaced. -/
def replaceRuns (replacement? : Text → Option Text) (t : Text) : Text :=
  (runs t).flatMap fun run => (replacement? run).getD run

/-- A replacement that never applies leaves the text as it is. -/
theorem replaceRuns_none (t : Text) : replaceRuns (fun _ => none) t = t := by
  simp [replaceRuns, List.flatMap_id', flatten_runs]

end Flowchart.Text
