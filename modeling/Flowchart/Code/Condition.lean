import Flowchart.Condition.Basic
import Flowchart.Instruction

/-!
# Conditions in C

The conditions on blocks differ from those of C in the words for the connectives, in the single signs that may
stand for the double ones, and in the question mark at the end.

* `spellWords` — the words AND, OR and NOT as operators, with the blanks after NOT dropped.  A word is a whole
  run of word characters.
* `spellSigns` — a lone equality sign, ampersand or bar doubled, outside double quotes.
* `condition` — both, for a condition as it stands on a block.
-/

namespace Flowchart.Code

/-- The operators for the words of runs, one run after the other. -/
def spellRuns : List Text → Text
  | [] => []
  | run :: rest =>
    if run = "AND".toList then "&&".toList ++ spellRuns rest
    else if run = "OR".toList then "||".toList ++ spellRuns rest
    else if run = "NOT".toList then '!' :: Text.trimStart (spellRuns rest)
    else run ++ spellRuns rest

/-- A condition with operators in place of the words for connectives. -/
def spellWords (t : Text) : Text := spellRuns (Text.runs t)

/-- A condition with its lone signs doubled.  A sign is lone unless the same sign stands beside it; an equality
sign is no lone sign after a sign of comparison either. -/
def spellSigns (before : Option Char) (quoted : Bool) : Text → Text
  | [] => []
  | c :: t =>
    if c = '"' then c :: spellSigns (some c) (!quoted) t
    else if quoted then c :: spellSigns (some c) quoted t
    else if c = '=' && t.head? != some '=' && !before.any isComparing then c :: c :: spellSigns (some c) quoted t
    else if (c = '&' || c = '|') && t.head? != some c && before != some c then
      c :: c :: spellSigns (some c) quoted t
    else c :: spellSigns (some c) quoted t

/-- A condition as C writes it. -/
def condition (t : Text) : Text := spellSigns none false (spellWords (Condition.question t))

end Flowchart.Code
