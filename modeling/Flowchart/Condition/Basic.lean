import Flowchart.Expression.Basic

/-!
# Conditions

A condition combines comparisons with *and*, *or* and *not*.  It is read by cutting it at the first connective
that stands outside quotation marks and parentheses, and *and* is looked for before *or*, wherever they stand:
`a OR b AND c` is `(a OR b) AND c`.

* `Connective`, `Connective.split?` — a text cut at its first connective of one sort.
* `negated?` — the operand of a leading `NOT` or `!`.
* `Comparator`, `comparison?` — two expressions with a comparison sign between them; the left one is as short
  as possible.
* `Condition`, `Condition.read` — the forms of conditions and their reader.
-/

namespace Flowchart

/-! ### Connectives -/

/-- The two connectives. -/
inductive Connective where
  | and
  | or
  deriving Repr, DecidableEq

namespace Connective

/-- A connective as a doubled sign. -/
def doubled : Connective → Text
  | and => ['&', '&']
  | or => ['|', '|']

/-- A connective as a single sign. -/
def single : Connective → Char
  | and => '&'
  | or => '|'

/-- A connective as a word. -/
def word : Connective → Text
  | and => ['A', 'N', 'D']
  | or => ['O', 'R']

/-- A name could not go on with the character, if there is one. -/
def isBoundary (c : Option Char) : Bool := !c.any Text.isNamePart

/-- What follows a connective at the start of a text.  The word counts only between boundaries, so it must not
stand inside a name. -/
def after? (k : Connective) (before : Option Char) (t : Text) : Option Text :=
  match Text.after? k.doubled t with
  | some rest => some rest
  | none =>
    match Text.after? [k.single] t with
    | some rest => some rest
    | none =>
      match Text.after? k.word t with
      | some rest => if isBoundary before && isBoundary rest.head? then some rest else none
      | none => none

/-- Cuts a text at the first connective met at the top level, starting after a given character and from a given
nesting. -/
def splitFrom? (k : Connective) (before : Option Char) (n : Nesting) : Text → Option (Text × Text)
  | [] => none
  | c :: t =>
    let next := if Nesting.isDelimiter c || !n.isTop then none else k.after? before (c :: t)
    match next with
    | some rest => some ([], rest)
    | none => (splitFrom? k (some c) (n.next c) t).map fun p => (c :: p.1, p.2)

/-- The two sides of the first top-level connective of one sort. -/
def split? (k : Connective) (t : Text) : Option (Text × Text) := k.splitFrom? none {} t

theorem length_lt_of_after {k : Connective} {before : Option Char} {t rest : Text}
    (h : k.after? before t = some rest) : rest.length < t.length := by
  have key : ∀ s : Text, s ≠ [] → Text.after? s t = some rest → rest.length < t.length := by
    intro s hs ha
    have he := Text.after?_eq_some_iff.mp ha
    have hpos : 0 < s.length := List.length_pos_iff.mpr hs
    rw [he, List.length_append]
    omega
  simp only [after?] at h
  split at h
  · next r hr => cases h; exact key _ (by cases k <;> simp [doubled]) hr
  · split at h
    · next r hr => cases h; exact key _ (by simp) hr
    · split at h
      · next r hr =>
        split at h
        · cases h; exact key _ (by cases k <;> simp [word]) hr
        · cases h
      · cases h

/-- Both sides of a cut are shorter than the text. -/
theorem length_lt_of_splitFrom {k : Connective} {before : Option Char} {n : Nesting} {t left right : Text}
    (h : k.splitFrom? before n t = some (left, right)) : left.length + right.length < t.length := by
  induction t generalizing before n left with
  | nil => simp [splitFrom?] at h
  | cons c t ih =>
    simp only [splitFrom?] at h
    split at h
    · next rest hr =>
      cases h
      split at hr
      · cases hr
      · have := length_lt_of_after hr
        simpa using this
    · obtain ⟨⟨l, r⟩, hp, he⟩ := Option.map_eq_some_iff.mp h
      cases he
      have : l.length + r.length < t.length := ih hp
      simp only [List.length_cons]; omega

theorem length_lt_of_split {k : Connective} {t left right : Text} (h : k.split? t = some (left, right)) :
    left.length + right.length < t.length :=
  length_lt_of_splitFrom h

end Connective

/-! ### Negations -/

/-- The operand of a leading `NOT`, which no name character may follow, or of a leading `!`, which is no part
of `!=`. -/
def negated? (t : Text) : Option Text :=
  let byWord :=
    match Text.after? "NOT".toList t with
    | some (c :: rest) => if Text.isNamePart c then none else some (Text.trimStart (c :: rest))
    | _ => none
  match byWord with
  | some operand => some operand
  | none =>
    match t with
    | '!' :: '=' :: _ => none
    | '!' :: rest => some (Text.trimStart rest)
    | _ => none

/-- The operand of a negation is shorter than the negation. -/
theorem length_lt_of_negated {t operand : Text} (h : negated? t = some operand) : operand.length < t.length := by
  simp only [negated?] at h
  split at h
  · next o ho =>
    cases h
    split at ho
    · next c rest ha =>
      split at ho
      · cases ho
      · cases ho
        have he := Text.after?_eq_some_iff.mp ha
        have := Text.length_trimStart_le (c :: rest)
        rw [he, List.length_append]
        simp only [show "NOT".toList.length = 3 from rfl]
        omega
    · cases ho
  · split at h
    · cases h
    · next rest _ _ =>
      cases h
      have := Text.length_trimStart_le rest
      simp only [List.length_cons]; omega
    · cases h

/-! ### Comparisons -/

/-- The comparisons. -/
inductive Comparator where
  | less
  | greater
  | atMost
  | atLeast
  | equal
  | unequal
  deriving Repr, DecidableEq

/-- The signs of the comparisons, in the order in which they are tried. -/
def Comparator.signs : List (Text × Comparator) :=
  [(['<', '='], .atMost), (['>', '='], .atLeast), (['=', '='], .equal), (['!', '='], .unequal),
    (['<'], .less), (['>'], .greater), (['='], .equal)]

/-- The right side of a comparison: what follows the blanks after the sign, on one line. -/
def rightSide? (t : Text) : Option Text :=
  let side := Text.trimStart t
  if side.isEmpty || side.contains '\n' then none else some side

/-- A comparison sign at the start of a text, with the right side after it. -/
def comparatorAt? (t : Text) : Option (Comparator × Text) :=
  Comparator.signs.findSome? fun sign =>
    ((Text.after? sign.1 t).bind rightSide?).map fun side => (sign.2, side)

/-- Two texts to be compared. -/
structure Comparison where
  left : Text
  comparator : Comparator
  right : Text
  deriving Repr, DecidableEq

/-- Cuts a text at its first comparison sign.  The left side is the shortest that is not empty; blanks around
the sign belong to neither side, and neither side goes over a line end. -/
def comparison? : Text → Option Comparison
  | [] => none
  | c :: t =>
    if c = '\n' then none
    else
      match comparatorAt? (Text.trimStart t) with
      | some (comparator, right) => some ⟨[c], comparator, right⟩
      | none => (comparison? t).map fun p => { p with left := c :: p.left }

/-! ### Conditions -/

/-- What is true or false. -/
inductive Condition where
  | both (left right : Condition)
  | either (left right : Condition)
  | negation (operand : Condition)
  | compared (comparator : Comparator) (left right : Expression)
  | holds (value : Expression)

namespace Condition

/-- A text without margins and without one question mark at its end. -/
def question (t : Text) : Text :=
  let trimmed := Text.trim t
  if trimmed.getLast? = some '?' then Text.trim trimmed.dropLast else trimmed

theorem length_question_le (t : Text) : (question t).length ≤ t.length := by
  simp only [question]
  have h := Text.length_trim_le t
  split
  · have := Text.length_trim_le (Text.trim t).dropLast
    rw [List.length_dropLast] at this
    omega
  · exact h

/-- Reads a text without connectives, negation and outer parentheses. -/
def readAtom (t : Text) : Condition :=
  match comparison? t with
  | some c => .compared c.comparator (Expression.read c.left) (Expression.read c.right)
  | none => .holds (Expression.read t)

/-- Reads a condition. -/
def read (t : Text) : Condition :=
  match _hand : Connective.and.split? (question t) with
  | some (left, right) => .both (read left) (read right)
  | none =>
    match _hor : Connective.or.split? (question t) with
    | some (left, right) => .either (read left) (read right)
    | none =>
      match _hnot : negated? (question t) with
      | some operand => .negation (read operand)
      | none =>
        match _hin : Text.enclosed? (question t) with
        | some inner => read inner
        | none => readAtom (question t)
termination_by t.length
decreasing_by
  all_goals have hq := length_question_le t
  · have := Connective.length_lt_of_split _hand; omega
  · have := Connective.length_lt_of_split _hand; omega
  · have := Connective.length_lt_of_split _hor; omega
  · have := Connective.length_lt_of_split _hor; omega
  · have := length_lt_of_negated _hnot; omega
  · have := Text.length_lt_of_enclosed _hin; omega

end Condition

end Flowchart
