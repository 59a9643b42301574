import Flowchart.Proofs.Condition.Scanning
import Flowchart.Proofs.WholeFloats

/-!
# Expressions of C

This is how C reads a text of names, whole constants, comparisons and the operators for *and*, *or* and *not*.
Characters make tokens, always the longest that is possible; tokens make an expression by the precedence of the
operators; and an expression has a value when its names have.

Only what conditions over whole numbers need is here.  A text with anything else in it is not read, be it C or not.

* `C.tokens?` — the tokens of a text.
* `C.Expr`, `C.Expr.value` — expressions, and their values as whole numbers.
* `C.operand?`, `C.operations?`, `C.read?` — an expression from its tokens.  Operators of a higher level bind more
  tightly, those of one level group to the left.
* `C.tokens?_word` and the lemmas beside it — the tokens at the beginning of a text, whatever follows.
-/

namespace Flowchart.C

/-! ### Tokens -/

/-- The operators between two operands. -/
inductive Operator where
  | compared (c : Comparator)
  | joined (k : Connective)
  deriving Repr, DecidableEq

/-- How tightly an operator binds. -/
def Operator.level : Operator → Nat
  | joined .or => 1
  | joined .and => 2
  | compared .equal => 3
  | compared .unequal => 3
  | compared _ => 4

/-- What a text is made of. -/
inductive Token where
  | word (w : Text)
  | opening
  | closing
  | not
  | minus
  | operator (o : Operator)
  deriving Repr, DecidableEq

/-- White space. -/
def isSpace (c : Char) : Bool := c == ' ' || c == '\t' || c == '\n' || c == '\x0b' || c == '\x0c'

/-- White space and nothing else. -/
def Spaces (t : Text) : Prop := ∀ c ∈ t, isSpace c = true

instance (t : Text) : Decidable (Spaces t) := decidable_of_iff (t.all isSpace = true) List.all_eq_true

/-- The token of two characters that are one sign.  Some signs have no place among conditions, but are read as one
sign all the same. -/
def double? : Char → Char → Option (Option Token)
  | '&', '&' => some (some (.operator (.joined .and)))
  | '|', '|' => some (some (.operator (.joined .or)))
  | '<', '=' => some (some (.operator (.compared .atMost)))
  | '>', '=' => some (some (.operator (.compared .atLeast)))
  | '=', '=' => some (some (.operator (.compared .equal)))
  | '!', '=' => some (some (.operator (.compared .unequal)))
  | '<', '<' => some none
  | '>', '>' => some none
  | '<', ':' => some none
  | '<', '%' => some none
  | '-', '-' => some none
  | '-', '=' => some none
  | '-', '>' => some none
  | _, _ => none

/-- The token of a character that is a sign by itself. -/
def single? : Char → Option Token
  | '<' => some (.operator (.compared .less))
  | '>' => some (.operator (.compared .greater))
  | '!' => some .not
  | '-' => some .minus
  | '(' => some .opening
  | ')' => some .closing
  | _ => none

/-- Tokens with one more character at the beginning of the word in front. -/
def extend (c : Char) : List Token → List Token
  | .word w :: rest => .word (c :: w) :: rest
  | rest => .word [c] :: rest

/-- The tokens of a text. -/
def tokens? : Text → Option (List Token)
  | [] => some []
  | c :: t =>
    if isSpace c then tokens? t
    else if Text.isNamePart c then
      if t.head?.any Text.isNamePart then (tokens? t).map (extend c) else (tokens? t).map (.word [c] :: ·)
    else
      match t with
      | [] => (single? c).map fun token => [token]
      | d :: rest =>
        match double? c d with
        | some token => token.bind fun token => (tokens? rest).map (token :: ·)
        | none => (single? c).bind fun token => (tokens? (d :: rest)).map (token :: ·)

/-! ### Expressions -/

/-- Expressions. -/
inductive Expr where
  | number (n : Nat)
  | named (name : String)
  | negative (e : Expr)
  | not (e : Expr)
  | binary (o : Operator) (a b : Expr)
  deriving Repr, DecidableEq

/-- A truth value is one or nought. -/
def ofBool (b : Bool) : Int := if b then 1 else 0

/-- The result of an operator.  Any number but nought counts as true. -/
def Operator.apply : Operator → Int → Int → Int
  | compared c, a, b => ofBool (c.ofInts a b)
  | joined .and, a, b => ofBool (a != 0 && b != 0)
  | joined .or, a, b => ofBool (a != 0 || b != 0)

/-- The value of an expression, when its names stand for numbers of 32 bits.  No number here is too large to be
compared as it is. -/
def Expr.value (v : String → Int32) : Expr → Int
  | number n => n
  | named name => (v name).toInt
  | negative e => -e.value v
  | not e => ofBool (e.value v == 0)
  | binary o a b => o.apply (a.value v) (b.value v)

/-- Whether an expression counts as true. -/
def Expr.holds (v : String → Int32) (e : Expr) : Bool := e.value v != 0

/-- The words that cannot be names. -/
def reserved : List String :=
  ["alignas", "alignof", "auto", "bool", "break", "case", "char", "const", "constexpr", "continue", "default", "do",
    "double", "else", "enum", "extern", "false", "float", "for", "goto", "if", "inline", "int", "long", "nullptr",
    "register", "restrict", "return", "short", "signed", "sizeof", "static", "static_assert", "struct", "switch",
    "thread_local", "true", "typedef", "typeof", "typeof_unqual", "union", "unsigned", "void", "volatile", "while",
    "_Alignas", "_Alignof", "_Atomic", "_Bool", "_Complex", "_Generic", "_Imaginary", "_Noreturn",
    "_Static_assert", "_Thread_local"]

/-- The value of a constant: digits in base ten, or in base eight if the first one is nought.  It has to fit in 64
bits with a sign. -/
def constant? (w : Text) : Option Nat :=
  let n := if w.head? = some '0' then Nat.ofDigitChars 8 w 0 else Nat.ofDigitChars 10 w 0
  if w.all Char.isDigit && (w.head? != some '0' || w.all (· < '8')) && n < 2 ^ 63 then some n else none

/-- A word as an operand: a name, or a constant. -/
def term? (w : Text) : Option Expr :=
  if Text.isName w then
    if String.ofList w ∈ reserved then none else some (.named (String.ofList w))
  else (constant? w).map .number

mutual

/-- Reads an operand with the signs before it.  At most so many tokens are read as the number says. -/
def operand? : Nat → List Token → Option (Expr × List Token)
  | _ + 1, .word w :: ts => (term? w).map fun e => (e, ts)
  | n + 1, .not :: ts => (operand? n ts).map fun p => (.not p.1, p.2)
  | n + 1, .minus :: ts => (operand? n ts).map fun p => (.negative p.1, p.2)
  | n + 1, .opening :: ts =>
    match (operand? n ts).bind fun p => operations? n 1 p.1 p.2 with
    | some (e, .closing :: rest) => some (e, rest)
    | _ => none
  | _, _ => none

/-- Reads the operators of a level or of higher ones, with the operands behind them.  What has been read is the first
operand. -/
def operations? : Nat → Nat → Expr → List Token → Option (Expr × List Token)
  | n + 1, level, left, .operator o :: ts =>
    if level ≤ o.level then
      ((operand? n ts).bind fun p => operations? n (o.level + 1) p.1 p.2).bind fun q =>
        operations? n level (.binary o left q.1) q.2
    else some (left, .operator o :: ts)
  | _, _, left, ts => some (left, ts)

end

/-- Reads an expression with operators of a level or of higher ones. -/
def expression? (n level : Nat) (ts : List Token) : Option (Expr × List Token) :=
  (operand? n ts).bind fun p => operations? n level p.1 p.2

/-- Reads a text as one expression. -/
def read? (t : Text) : Option Expr :=
  (tokens? t).bind fun ts =>
    match expression? ts.length 1 ts with
    | some (e, []) => some e
    | _ => none

/-! ### The tokens at the beginning of a text -/

variable {c d : Char} {t r : Text}

/-- White space of C is blank. -/
theorem isBlank_of_isSpace (h : isSpace c = true) : Text.isBlank c = true := by
  simp only [isSpace, Bool.or_eq_true, beq_iff_eq] at h
  rcases h with (((rfl | rfl) | rfl) | rfl) | rfl <;> decide

theorem Spaces.isBlank (h : Spaces t) : ∀ c ∈ t, Text.isBlank c = true := fun c hc => isBlank_of_isSpace (h c hc)

/-- No name goes on with white space. -/
theorem isSpace_of_isNamePart (h : Text.isNamePart c = true) : isSpace c = false := by
  cases hspace : isSpace c with
  | false => rfl
  | true =>
    rw [Text.isNamePart_of_isBlank (isBlank_of_isSpace hspace)] at h
    cases h

theorem tokens?_of_isSpace (h : isSpace c = true) : tokens? (c :: t) = tokens? t := by
  cases t <;> simp [tokens?, h]

theorem tokens?_of_isNamePart (h : Text.isNamePart c = true) :
    tokens? (c :: t) =
      if t.head?.any Text.isNamePart then (tokens? t).map (extend c) else (tokens? t).map (.word [c] :: ·) := by
  cases t <;> simp [tokens?, h, isSpace_of_isNamePart h]

/-- White space is skipped. -/
theorem tokens?_spaces (h : Spaces t) : tokens? (t ++ r) = tokens? r := by
  induction t with
  | nil => rfl
  | cons c t ih =>
    rw [List.cons_append, tokens?_of_isSpace (h c List.mem_cons_self)]
    exact ih fun d hd => h d (List.mem_cons_of_mem c hd)

/-- A word ends where no name could go on. -/
theorem tokens?_word (hne : t ≠ []) (hword : ∀ c ∈ t, Text.isNamePart c = true)
    (hr : Connective.isBoundary r.head? = true) : tokens? (t ++ r) = (tokens? r).map (.word t :: ·) := by
  induction t with
  | nil => exact absurd rfl hne
  | cons c t ih =>
    have hc : Text.isNamePart c = true := hword c List.mem_cons_self
    rw [List.cons_append, tokens?_of_isNamePart hc]
    cases t with
    | nil =>
      have hend : r.head?.any Text.isNamePart = false := by simpa [Connective.isBoundary] using hr
      rw [List.nil_append, if_neg (by rw [hend]; decide)]
    | cons d t =>
      have hd : Text.isNamePart d = true := hword d (by simp)
      have hrest := ih (List.cons_ne_nil d t) fun b hb => hword b (List.mem_cons_of_mem c hb)
      rw [if_pos (by simpa using hd), hrest, Option.map_map]
      rfl

/-- A sign of two characters. -/
theorem tokens?_double {token : Token} (h : double? c d = some (some token))
    (hc : isSpace c = false) (hc' : Text.isNamePart c = false) :
    tokens? (c :: d :: r) = (tokens? r).map (token :: ·) := by
  rw [tokens?, if_neg (by rw [hc]; decide), if_neg (by rw [hc']; decide)]
  simp only [h, Option.bind_some]

/-- A sign of one character ends where no sign of two characters begins with it. -/
theorem tokens?_single {token : Token} (h : single? c = some token) (hr : ∀ d ∈ r.head?, double? c d = none)
    (hc : isSpace c = false) (hc' : Text.isNamePart c = false) :
    tokens? (c :: r) = (tokens? r).map (token :: ·) := by
  cases r with
  | nil => simp [h, tokens?, hc, hc']
  | cons d r =>
    rw [tokens?, if_neg (by rw [hc]; decide), if_neg (by rw [hc']; decide)]
    simp only [hr d rfl, h, Option.bind_some]

end Flowchart.C
