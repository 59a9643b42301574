import Flowchart.Literal

/-!
# Arithmetic on texts

An expression such as `2 * x - y` is computed on its text.  Names of numbers are replaced by their numerals,
blanks are taken out, and signs that stand next to each other are merged.  Then the first product or quotient
of two numerals is replaced by its result until there is none left, and after that the first sum or difference.
What is left is read as a number; if it is none, the text itself is the result.

There are no parentheses.  A text in which a letter, an underscore or a quotation mark is left after the names
of numbers have been replaced is not computed at all.

* `hasOperator` — whether a text asks for arithmetic.
* `substitute` — names of numbers replaced.
* `mergeSigns` — signs next to each other merged; every merger makes the text shorter.
* `reduce` — operations carried out, first ones first.  An operation settles an operator that follows a digit
  and makes no new one, so as many rounds as there are operators are enough.
* `fold` — all of it.
-/

namespace Flowchart.Arithmetic

/-! ### Does a text ask for arithmetic? -/

/-- The four operators. -/
def isOperator (c : Char) : Bool := c == '+' || c == '-' || c == '*' || c == '/'

/-- An operator outside quotation marks. -/
def operatorIn (quoted : Bool) : Text → Bool
  | [] => false
  | c :: t => if c = '"' then operatorIn (!quoted) t else (isOperator c && !quoted) || operatorIn quoted t

/-- A sign in front of a name. -/
def isSignedName : Text → Bool
  | [] => false
  | c :: t => (c == '+' || c == '-') && (Text.trimStart t).head?.any Text.isNameStart

/-- A text asks for arithmetic when a sign stands in front of a name, or an operator anywhere but at the very
start.  Operators in quotation marks do not count. -/
def hasOperator (t : Text) : Bool :=
  isSignedName t ||
    match t with
    | [] => false
    | c :: rest => operatorIn (c == '"') rest

/-! ### Names and signs -/

/-- The numeral of a number; nothing for other values. -/
def numeralOf? : Value → Option Text
  | .int n => some (Decimal.integerText n.toInt)
  | .float x => some (Decimal.display x)
  | .bool _ => none
  | .text _ => none

/-- The text with every name of a number replaced by the numeral. -/
def substitute (lookup : String → Option Value) (t : Text) : Text :=
  Text.replaceRuns
    (fun run => if Text.isName run then (lookup (String.ofList run)).bind numeralOf? else none) t

/-- Two characters that become one. -/
structure Merger where
  first : Char
  second : Char
  result : Char
  deriving Repr, DecidableEq

/-- The mergers of signs, in the order in which they are tried. -/
def mergers : List Merger :=
  [⟨'-', '-', '+'⟩, ⟨'+', '-', '-'⟩, ⟨'-', '+', '-'⟩, ⟨'+', '+', '+'⟩, ⟨'*', '+', '*'⟩, ⟨'/', '+', '/'⟩]

/-- The two characters stand next to each other somewhere. -/
def Merger.occurs (m : Merger) : Text → Bool
  | [] => false
  | [_] => false
  | a :: b :: t => (a = m.first && b = m.second) || m.occurs (b :: t)

/-- Every occurrence replaced, from left to right. -/
def Merger.apply (m : Merger) : Text → Text
  | [] => []
  | [a] => [a]
  | a :: b :: t => if a = m.first && b = m.second then m.result :: m.apply t else a :: m.apply (b :: t)

theorem Merger.length_apply_le (m : Merger) (t : Text) : (m.apply t).length ≤ t.length := by
  fun_induction Merger.apply m t with
  | case1 => simp
  | case2 => simp
  | case3 a b t h ih => simp only [List.length_cons]; omega
  | case4 a b t h ih => simp only [List.length_cons] at ih ⊢; omega

/-- A merger that occurs makes the text shorter. -/
theorem Merger.length_apply_lt {m : Merger} {t : Text} (h : m.occurs t = true) :
    (m.apply t).length < t.length := by
  fun_induction Merger.apply m t with
  | case1 => simp [Merger.occurs] at h
  | case2 => simp [Merger.occurs] at h
  | case3 a b t hab _ =>
    have := m.length_apply_le t
    simp only [List.length_cons]; omega
  | case4 a b t hab ih =>
    simp only [Merger.occurs, Bool.or_eq_true] at h
    have := ih (h.resolve_left hab)
    simp only [List.length_cons] at this ⊢; omega

/-- Signs merged until no two that merge stand next to each other. -/
def mergeSigns (t : Text) : Text :=
  match _h : mergers.find? (·.occurs t) with
  | some m => mergeSigns (m.apply t)
  | none => t
termination_by t.length
decreasing_by
  have hm : m.occurs t = true := by simpa using List.find?_some _h
  exact Merger.length_apply_lt hm

/-- The text without the plus it may begin with. -/
def dropPlus : Text → Text
  | '+' :: t => t
  | t => t

/-! ### Operations -/

/-- Reads the longest numeral at the start of a text: digits, and a point with more digits if there is one. -/
def unsignedPart? (t : Text) : Option (Text × Text) :=
  let whole := t.takeWhile Text.isDigit
  let rest := t.dropWhile Text.isDigit
  if whole.isEmpty then none
  else
    match rest with
    | '.' :: more =>
      let fraction := more.takeWhile Text.isDigit
      if fraction.isEmpty then some (whole, rest)
      else some (whole ++ '.' :: fraction, more.dropWhile Text.isDigit)
    | _ => some (whole, rest)

/-- Reads the longest numeral at the start of a text, a minus included. -/
def numeralPart? (t : Text) : Option (Text × Text) :=
  match t with
  | '-' :: rest => (unsignedPart? rest).map fun p => ('-' :: p.1, p.2)
  | _ => unsignedPart? t

/-- Two numerals with an operator between them. -/
structure Operation where
  left : Text
  operator : Char
  right : Text
  deriving Repr, DecidableEq

/-- Reads an operation at the start of a text. -/
def operation? (among : Char → Bool) (t : Text) : Option (Operation × Text) :=
  match numeralPart? t with
  | some (left, c :: rest) =>
    if among c then (numeralPart? rest).map fun p => (⟨left, c, p.1⟩, p.2) else none
  | _ => none

/-- The whole number that an operator other than division gives. -/
def exactResult (operator : Char) (a b : Int) : Int :=
  if operator = '*' then a * b else if operator = '+' then a + b else a - b

/-- The float that an operator gives. -/
def floatResult (operator : Char) (a b : Float) : Float :=
  if operator = '*' then a * b
  else if operator = '/' then a / b
  else if operator = '+' then a + b
  else a - b

/-- The float that a numeral stands for; not a number when it stands for none. -/
def floatOf (t : Text) : Float := (Decimal.read? t).getD (0.0 / 0.0)

/-- The text of the result in whole numbers: both numerals and the result must fit into 64 bits, and a
division is never carried out in whole numbers. -/
def Operation.exactText? (o : Operation) : Option Text :=
  if o.operator = '/' then none
  else
    match Literal.int64? o.left, Literal.int64? o.right with
    | some a, some b =>
      (int64Of? (exactResult o.operator a.toInt b.toInt)).map fun n => Decimal.integerText n.toInt
    | _, _ => none

/-- The text of the result: exact if possible, otherwise that of the float. -/
def Operation.resultText (o : Operation) : Text :=
  o.exactText?.getD (Decimal.display (floatResult o.operator (floatOf o.left) (floatOf o.right)))

/-- Carries out an operation that stands after a given character.  A minus that follows a digit or a point is
the operator before the operation, not a sign of its left numeral. -/
def Operation.settle (o : Operation) (before : Option Char) : Text :=
  match o.left with
  | '-' :: left =>
    if before.any fun c => c.isDigit || c == '.' then '-' :: { o with left }.resultText else o.resultText
  | _ => o.resultText

/-- The text with its first operation carried out; nothing when there is none. -/
def reduceOnce? (among : Char → Bool) (before : Option Char) : Text → Option Text
  | [] => none
  | c :: t =>
    match operation? among (c :: t) with
    | some (o, rest) => some (o.settle before ++ rest)
    | none => (reduceOnce? among (some c) t).map (c :: ·)

/-- Carries out operations, at most the given number of them. -/
def reduceRounds (among : Char → Bool) : Nat → Text → Text
  | 0, t => t
  | rounds + 1, t =>
    match reduceOnce? among none t with
    | some next => reduceRounds among rounds next
    | none => t

/-- Carries out all operations with some of the operators, first ones first. -/
def reduce (among : Char → Bool) (t : Text) : Text := reduceRounds among (t.countP among) t

/-- Multiplication and division. -/
def isProduct (c : Char) : Bool := c == '*' || c == '/'

/-- Addition and subtraction. -/
def isSum (c : Char) : Bool := c == '+' || c == '-'

/-! ### Folding -/

/-- A letter, an underscore or a quotation mark: signs of an operand that is no number. -/
def isUnresolved (c : Char) : Bool := Text.isNameStart c || c == '"'

/-- The value of a text on which nothing is left to be done: the number it stands for, or itself. -/
def settled (t : Text) : Value :=
  (Literal.numeral? t).getD <|
    match Decimal.read? t with
    | some x => .float x
    | none => .text (String.ofList t)

/-- A text without blanks and names, with all operations carried out. -/
def compute (t : Text) : Text := reduce isSum (reduce isProduct (dropPlus (mergeSigns t)))

/-- The value of an arithmetic text. -/
def fold (lookup : String → Option Value) (t : Text) : Value :=
  let operands := (substitute lookup t).filter fun c => !Text.isBlank c
  if operands.any isUnresolved then .text (String.ofList operands) else settled (compute operands)

end Flowchart.Arithmetic
