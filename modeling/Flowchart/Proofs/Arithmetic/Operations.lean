import Flowchart.Proofs.Condition.Comparisons

/-!
# Operations carried out on a text

A calculation is a text, and it is carried out by rewriting: the first product is replaced by its result, then the
next one, and when there is none left, the first sum.  Here this is followed for texts that are made of whole
numerals with operators between them.

* `Figure` — a whole numeral with or without a minus.  `Figure.ofInt` is the one that is written for a result.
* `Operator`, `multiply`, `total` — what a row of numbers with operators between them is worth: products first, from
  left to right, then sums from left to right.
* `Figure.numeralPart?_text`, `Figure.resultText_eq` — a figure is read back, and the text of a result is a figure.
* `Figure.reduceOnce?_behind` — a minus in front of a product may be read as the sign of its first numeral or as the
  operator before it; in either case the result stands where the product stood.
* `reduceOnce?_product`, `reduceOnce?_sum` — one round.
* `reduce_products`, `reduce_sums` — all rounds.
* **`settled_reduce`** — the text of a row of numerals is rewritten to the numeral of its worth.
-/

namespace Flowchart.Arithmetic

/-! ### Numbers with operators between them -/

/-- A number that a calculation can hold without rounding. -/
def Fits (n : Int) : Prop := n.natAbs ≤ 2 ^ 63 - 1

instance (n : Int) : Decidable (Fits n) := inferInstanceAs (Decidable (_ ≤ _))

/-- The operators of a calculation in whole numbers. -/
inductive Operator where
  | plus
  | minus
  | times
  deriving DecidableEq

namespace Operator

/-- The sign of an operator. -/
def char : Operator → Char
  | plus => '+'
  | minus => '-'
  | times => '*'

/-- What an operator makes of two numbers. -/
def apply : Operator → Int → Int → Int
  | plus, a, b => a + b
  | minus, a, b => a - b
  | times, a, b => a * b

end Operator

/-- A row of numbers with its products carried out, from left to right: the first one, and the others with the signs
before them. -/
def multiply (a : Int) : List (Operator × Int) → Int × List (Operator × Int)
  | [] => (a, [])
  | (.times, b) :: rest => multiply (a * b) rest
  | (sign, b) :: rest => (a, (sign, (multiply b rest).1) :: (multiply b rest).2)

/-- The sum of a row of numbers, from left to right. -/
def sum (a : Int) : List (Operator × Int) → Int
  | [] => a
  | (sign, b) :: rest => sum (sign.apply a b) rest

/-- What a row of numbers is worth: products before sums. -/
def total (a : Int) (rest : List (Operator × Int)) : Int := sum (multiply a rest).1 (multiply a rest).2

/-- Every number of a row and every partial product can be held. -/
def ProductsFit (a : Int) : List (Operator × Int) → Prop
  | [] => Fits a
  | (.times, b) :: rest => Fits a ∧ Fits b ∧ ProductsFit (a * b) rest
  | (_, b) :: rest => Fits a ∧ ProductsFit b rest

def ProductsFit.decidable : (a : Int) → (rest : List (Operator × Int)) → Decidable (ProductsFit a rest)
  | a, [] => inferInstanceAs (Decidable (Fits a))
  | a, (.times, b) :: rest =>
    have := decidable (a * b) rest
    inferInstanceAs (Decidable (_ ∧ _ ∧ _))
  | _, (.plus, b) :: rest =>
    have := decidable b rest
    inferInstanceAs (Decidable (_ ∧ _))
  | _, (.minus, b) :: rest =>
    have := decidable b rest
    inferInstanceAs (Decidable (_ ∧ _))

instance (a : Int) (rest : List (Operator × Int)) : Decidable (ProductsFit a rest) := ProductsFit.decidable a rest

/-- Every partial sum can be held. -/
def SumsFit (a : Int) : List (Operator × Int) → Prop
  | [] => Fits a
  | (sign, b) :: rest => Fits a ∧ SumsFit (sign.apply a b) rest

def SumsFit.decidable : (a : Int) → (rest : List (Operator × Int)) → Decidable (SumsFit a rest)
  | a, [] => inferInstanceAs (Decidable (Fits a))
  | a, (sign, b) :: rest =>
    have := decidable (sign.apply a b) rest
    inferInstanceAs (Decidable (_ ∧ _))

instance (a : Int) (rest : List (Operator × Int)) : Decidable (SumsFit a rest) := SumsFit.decidable a rest

/-- All that is computed for a row of numbers can be held. -/
def AllFit (a : Int) (rest : List (Operator × Int)) : Prop :=
  ProductsFit a rest ∧ SumsFit (multiply a rest).1 (multiply a rest).2

instance (a : Int) (rest : List (Operator × Int)) : Decidable (AllFit a rest) := inferInstanceAs (Decidable (_ ∧ _))

/-! ### Figures -/

/-- A whole numeral with or without a minus. -/
structure Figure where
  negative : Bool
  numeral : Numeral

namespace Figure

def text (f : Figure) : Text := (Term.numeral f.negative f.numeral).text

def value (f : Figure) : Int := (Term.numeral f.negative f.numeral).value fun _ => 0

/-- The digits of a natural number, without noughts before them. -/
def digitsOf (n : Nat) : Numeral where
  digits := Decimal.digitsOf n
  ne_nil := Nat.toDigits_ne_nil
  isDigit c := Nat.isDigit_of_mem_toDigits (by decide) (by decide)

/-- The figure that is written for a number. -/
def ofInt : Int → Figure
  | .ofNat n => ⟨false, digitsOf n⟩
  | .negSucc n => ⟨true, digitsOf (n + 1)⟩

theorem value_digitsOf (n : Nat) : (digitsOf n).value = n := Nat.ofDigitChars_ten_toDigits

theorem text_ofInt (n : Int) : (ofInt n).text = Decimal.integerText n := by
  cases n <;> rfl

theorem value_ofInt (n : Int) : (ofInt n).value = n := by
  cases n with
  | ofNat n => exact congrArg Int.ofNat (value_digitsOf n)
  | negSucc n =>
    show -((digitsOf (n + 1)).value : Int) = Int.negSucc n
    rw [value_digitsOf]
    rfl

end Figure

/-! ### Numerals that are read from a text -/

/-- A number that fits is a 64-bit number. -/
theorem int64Of?_of_fits {n : Int} (h : Fits n) : ∃ k, int64Of? n = some k ∧ k.toInt = n := by
  obtain ⟨k, hk⟩ : ∃ k, int64Of? n = some k := by
    unfold Fits at h
    refine ⟨_, if_pos ⟨?_, ?_⟩⟩
    · show (-9223372036854775808 : Int) ≤ n
      omega
    · show n ≤ (9223372036854775807 : Int)
      omega
  exact ⟨k, hk, toInt_of_int64Of hk⟩

/-- No numeral goes on in a text, and no operation of some kind begins behind the numeral before it. -/
def Stops (among : Char → Bool) (r : Text) : Prop :=
  ∀ c ∈ r.head?, among c = false ∧ Text.isDigit c = false ∧ c ≠ '.'

/-- No numeral goes on in a text. -/
abbrev Ends (r : Text) : Prop := Stops (fun _ => false) r

theorem stops_nil {among : Char → Bool} : Stops among [] := fun c hc => by cases hc

theorem Stops.ends {among : Char → Bool} {r : Text} (h : Stops among r) : Ends r := fun c hc => ⟨rfl, (h c hc).2⟩

/-- Operators end a numeral. -/
theorem ends_char (s : Operator) (r : Text) : Ends (s.char :: r) := by
  intro c hc
  obtain rfl : s.char = c := Option.some.inj hc
  cases s <;> decide

namespace Figure

variable {among : Char → Bool} {before : Option Char} {f g : Figure} {c : Char} {r : Text}

theorem int64?_text (h : Fits f.value) : ∃ k, Literal.int64? f.text = some k ∧ k.toInt = f.value := by
  obtain ⟨k, hk, hvalue⟩ := int64Of?_of_fits h
  refine ⟨k, ?_, hvalue⟩
  unfold Literal.int64? text
  rw [Term.integer?_numeral]
  exact hk

theorem unsignedPart?_digits (n : Numeral) (hr : Ends r) : unsignedPart? (n.digits ++ r) = some (n.digits, r) := by
  have hdigits : ∀ c ∈ n.digits, Text.isDigit c = true := fun c hc => Text.isDigit_of_ascii (n.isDigit c hc)
  have hne : n.digits.isEmpty = false := by simpa using n.ne_nil
  obtain ⟨htake, hdrop⟩ := Text.split_run hdigits fun d hd => (hr d hd).2.1
  unfold unsignedPart?
  rw [htake, hdrop]
  cases r with
  | nil => simp [hne]
  | cons d r =>
    obtain ⟨-, -, hpoint⟩ := hr d rfl
    simp [hne, hpoint]

/-- Digits do not begin with another character. -/
theorem digits_append_ne (n : Numeral) (hc : c.isDigit = false) (r t : Text) : n.digits ++ r ≠ c :: t := by
  intro heq
  obtain ⟨d, u, hu⟩ := List.exists_cons_of_ne_nil n.ne_nil
  have hd := n.isDigit d (by rw [hu]; exact List.mem_cons_self)
  rw [hu] at heq
  obtain rfl : d = c := (List.cons.inj heq).1
  rw [hc] at hd
  cases hd

/-- A figure does not begin with a plus. -/
theorem text_append_ne_plus (f : Figure) (r t : Text) : f.text ++ r ≠ '+' :: t := by
  obtain ⟨negative, n⟩ := f
  cases negative with
  | false => exact digits_append_ne n rfl r t
  | true => exact fun heq => absurd (List.cons.inj heq).1 (by decide)

theorem numeralPart?_digits (n : Numeral) (hr : Ends r) : numeralPart? (n.digits ++ r) = some (n.digits, r) := by
  unfold numeralPart?
  split
  · next t heq => exact absurd heq (digits_append_ne n rfl r t)
  · exact unsignedPart?_digits n hr

/-- **A figure is read back**, whatever ends it. -/
theorem numeralPart?_text (f : Figure) (hr : Ends r) : numeralPart? (f.text ++ r) = some (f.text, r) := by
  obtain ⟨negative, n⟩ := f
  cases negative with
  | false => exact numeralPart?_digits n hr
  | true =>
    show (unsignedPart? (n.digits ++ r)).map _ = _
    rw [unsignedPart?_digits n hr]
    rfl

theorem operation?_text (f g : Figure) (s : Operator) (hs : among s.char = true) (hr : Ends r) :
    operation? among (f.text ++ s.char :: (g.text ++ r)) = some (⟨f.text, s.char, g.text⟩, r) := by
  unfold operation?
  rw [numeralPart?_text f (ends_char s _)]
  dsimp only
  rw [if_pos hs, numeralPart?_text g hr]
  rfl

/-- No operation begins with a figure behind which there is no operator for it. -/
theorem operation?_eq_none (f : Figure) (hr : Stops among r) : operation? among (f.text ++ r) = none := by
  unfold operation?
  rw [numeralPart?_text f hr.ends]
  cases r with
  | nil => rfl
  | cons c r => exact if_neg (by simp [(hr c rfl).1])

/-- Nor with a sign in front of a figure, unless the two of them are a figure. -/
theorem operation?_sign (s : Operator) (f : Figure) (h : s = .minus → f.negative = true) :
    operation? among (s.char :: (f.text ++ r)) = none := by
  obtain ⟨negative, n⟩ := f
  cases s with
  | plus => rfl
  | times => rfl
  | minus =>
    obtain rfl : negative = true := h rfl
    rfl

/-! ### One round -/

/-- A run of digits is passed if no operator for an operation follows it. -/
theorem reduceOnce?_digits {d : Text} (hne : d ≠ []) (hd : ∀ c ∈ d, c.isDigit = true) (hr : Stops among r) :
    reduceOnce? among before (d ++ r) = (reduceOnce? among d.getLast? r).map (d ++ ·) := by
  induction d generalizing before with
  | nil => exact absurd rfl hne
  | cons c d ih =>
    have hnone : operation? among (c :: (d ++ r)) = none := operation?_eq_none ⟨false, ⟨c :: d, hne, hd⟩⟩ hr
    rw [List.cons_append, reduceOnce?, hnone]
    cases d with
    | nil => rfl
    | cons d ds =>
      dsimp only
      rw [ih (List.cons_ne_nil d ds) fun b hb => hd b (List.mem_cons_of_mem c hb), Option.map_map,
        List.getLast?_cons_cons]
      rfl

/-- And so is a figure. -/
theorem reduceOnce?_text (f : Figure) (hr : Stops among r) :
    reduceOnce? among before (f.text ++ r) = (reduceOnce? among f.numeral.digits.getLast? r).map (f.text ++ ·) := by
  have hnone := operation?_eq_none f hr
  obtain ⟨negative, n⟩ := f
  cases negative with
  | false => exact reduceOnce?_digits n.ne_nil n.isDigit hr
  | true =>
    show reduceOnce? among before ('-' :: (n.digits ++ r)) = _
    rw [reduceOnce?, show operation? among ('-' :: (n.digits ++ r)) = none from hnone]
    dsimp only
    rw [reduceOnce?_digits n.ne_nil n.isDigit hr, Option.map_map]
    rfl

/-- In a figure alone there is nothing to be carried out. -/
theorem reduceOnce?_alone (f : Figure) : reduceOnce? among before f.text = none := by
  have hskip : reduceOnce? among before (f.text ++ []) = _ := reduceOnce?_text f stops_nil
  rw [List.append_nil] at hskip
  exact hskip

/-- The character closes a numeral: a minus behind it is an operator. -/
def closes (before : Option Char) : Bool := before.any fun c => c.isDigit || c == '.'

theorem closes_getLast? (n : Numeral) : closes n.digits.getLast? = true := by
  have hdigit := n.isDigit _ (List.getLast_mem n.ne_nil)
  rw [List.getLast?_eq_some_getLast n.ne_nil]
  simp [closes, hdigit]

/-- An operation at the start of a numeral is carried out where it stands. -/
theorem reduceOnce?_operation (f g : Figure) (s : Operator) (hs : among s.char = true) (hr : Ends r)
    (hbefore : closes before = false) :
    reduceOnce? among before (f.text ++ s.char :: (g.text ++ r)) =
      some (Operation.resultText ⟨f.text, s.char, g.text⟩ ++ r) := by
  have hoperation := operation?_text f g s hs hr
  have hsettle : Operation.settle ⟨f.text, s.char, g.text⟩ before = Operation.resultText ⟨f.text, s.char, g.text⟩ := by
    unfold Operation.settle
    split
    · exact if_neg (by simpa [closes] using hbefore)
    · rfl
  cases htext : f.text ++ s.char :: (g.text ++ r) with
  | nil => simp at htext
  | cons c t =>
    rw [htext] at hoperation
    rw [reduceOnce?, hoperation]
    dsimp only
    rw [hsettle]

/-- An operator with a figure behind it is passed if no operator for an operation follows. -/
theorem reduceOnce?_sign (s : Operator) (f : Figure) (hr : Stops among r) :
    reduceOnce? among before (s.char :: (f.text ++ r)) =
      (reduceOnce? among f.numeral.digits.getLast? r).map fun t => s.char :: (f.text ++ t) := by
  have hnone : operation? among (s.char :: (f.text ++ r)) = none := by
    by_cases h : s = .minus → f.negative = true
    · exact operation?_sign s f h
    · -- The minus and the digits are a figure too.
      obtain ⟨rfl, hsign⟩ := Classical.not_imp.mp h
      obtain ⟨negative, n⟩ := f
      obtain rfl : negative = false := by simpa using hsign
      exact operation?_eq_none ⟨true, n⟩ hr
  rw [reduceOnce?, hnone]
  dsimp only
  rw [reduceOnce?_text f hr, Option.map_map]
  rfl

/-- **A product behind another operator** is carried out where it stands, with the operator left in front of it.  Read
as a sign of the first numeral, a minus is given back. -/
theorem reduceOnce?_behind (s : Operator) (f g : Figure) (hs : isProduct s.char = false) (hr : Ends r)
    (hbefore : closes before = true) :
    reduceOnce? isProduct before (s.char :: (f.text ++ '*' :: (g.text ++ r))) =
      some (s.char :: (Operation.resultText ⟨f.text, '*', g.text⟩ ++ r)) := by
  by_cases h : s = .minus → f.negative = true
  · have hclosed : closes (some s.char) = false := by cases s <;> rfl
    rw [reduceOnce?, operation?_sign s f h]
    dsimp only
    rw [show '*' = Operator.times.char from rfl, reduceOnce?_operation f g .times rfl hr hclosed]
    rfl
  · obtain ⟨rfl, hsign⟩ := Classical.not_imp.mp h
    obtain ⟨negative, n⟩ := f
    obtain rfl : negative = false := by simpa using hsign
    have hoperation : operation? isProduct ('-' :: (n.digits ++ '*' :: (g.text ++ r))) =
        some (⟨'-' :: n.digits, '*', g.text⟩, r) :=
      operation?_text ⟨true, n⟩ g .times rfl hr
    show reduceOnce? isProduct before ('-' :: (n.digits ++ '*' :: (g.text ++ r))) = _
    rw [reduceOnce?, hoperation]
    dsimp only
    unfold Operation.settle
    exact congrArg some (congrArg (· ++ r) (if_pos hbefore))

/-- The text of a result is that of a figure if all numbers fit. -/
theorem resultText_eq {s : Operator} (hf : Fits f.value) (hg : Fits g.value) (h : Fits (s.apply f.value g.value)) :
    Operation.resultText ⟨f.text, s.char, g.text⟩ = (ofInt (s.apply f.value g.value)).text := by
  obtain ⟨a, ha, hfa⟩ := int64?_text hf
  obtain ⟨b, hb, hgb⟩ := int64?_text hg
  obtain ⟨k, hk, hvalue⟩ := int64Of?_of_fits h
  have hresult : exactResult s.char a.toInt b.toInt = s.apply f.value g.value := by
    rw [hfa, hgb]
    cases s <;> rfl
  have hquotient : s.char ≠ '/' := by cases s <;> decide
  have hexact : Operation.exactText? ⟨f.text, s.char, g.text⟩ =
      some (Decimal.integerText (s.apply f.value g.value)) := by
    unfold Operation.exactText?
    rw [if_neg hquotient, ha, hb]
    dsimp only
    rw [hresult, hk, ← hvalue]
    rfl
  unfold Operation.resultText
  rw [hexact, text_ofInt]
  rfl

theorem resultText_times (hf : Fits f.value) (hg : Fits g.value) (h : Fits (f.value * g.value)) :
    Operation.resultText ⟨f.text, '*', g.text⟩ = (ofInt (f.value * g.value)).text :=
  resultText_eq (s := .times) hf hg h

end Figure

/-! ### Rows of figures -/

/-- A row of figures as it is written. -/
def rowText (u : Figure) : List (Operator × Figure) → Text
  | [] => u.text
  | (s, f) :: rest => u.text ++ s.char :: rowText f rest

/-- The numbers of a row behind the first one. -/
def values (rest : List (Operator × Figure)) : List (Operator × Int) := rest.map fun p => (p.1, p.2.value)

/-- A row with its first product carried out. -/
def multiplyOnce? (u : Figure) : List (Operator × Figure) → Option (Figure × List (Operator × Figure))
  | [] => none
  | (.times, f) :: rest => some (.ofInt (u.value * f.value), rest)
  | (s, f) :: rest => (multiplyOnce? f rest).map fun p => (u, (s, p.1) :: p.2)

/-- The number of products in a row. -/
def products (rest : List (Operator × Figure)) : Nat := rest.countP (·.1 = .times)

section

variable {u v f : Figure} {rest more : List (Operator × Figure)} {s : Operator}

/-- A row is its first figure and a text that ends it. -/
theorem rowText_eq (rest : List (Operator × Figure)) : ∃ r, Ends r ∧ ∀ u, rowText u rest = u.text ++ r := by
  cases rest with
  | nil => exact ⟨[], stops_nil, fun u => (List.append_nil u.text).symm⟩
  | cons p rest => exact ⟨p.1.char :: rowText p.2 rest, ends_char _ _, fun _ => rfl⟩

theorem isProduct_char (hs : s ≠ .times) : isProduct s.char = false := by
  cases s with
  | plus | minus => rfl
  | times => exact absurd rfl hs

theorem isSum_char (hs : s ≠ .times) : isSum s.char = true := by
  cases s with
  | plus | minus => rfl
  | times => exact absurd rfl hs

/-- Other operators are passed when products are looked for. -/
theorem stops_char (hs : s ≠ .times) (r : Text) : Stops isProduct (s.char :: r) := by
  intro c hc
  refine ⟨?_, (ends_char s r c hc).2⟩
  obtain rfl : s.char = c := Option.some.inj hc
  exact isProduct_char hs

theorem multiplyOnce?_cons (hs : s ≠ .times) (u f : Figure) (rest : List (Operator × Figure)) :
    multiplyOnce? u ((s, f) :: rest) = (multiplyOnce? f rest).map fun p => (u, (s, p.1) :: p.2) := by
  cases s with
  | plus | minus => rfl
  | times => exact absurd rfl hs

theorem multiply_cons (hs : s ≠ .times) (a b : Int) (rest : List (Operator × Int)) :
    multiply a ((s, b) :: rest) = (a, (s, (multiply b rest).1) :: (multiply b rest).2) := by
  cases s with
  | plus | minus => rfl
  | times => exact absurd rfl hs

theorem productsFit_cons (hs : s ≠ .times) (a b : Int) (rest : List (Operator × Int)) :
    ProductsFit a ((s, b) :: rest) ↔ Fits a ∧ ProductsFit b rest := by
  cases s with
  | plus | minus => rfl
  | times => exact absurd rfl hs

/-- The first number of a row fits. -/
theorem ProductsFit.head {a : Int} {rest : List (Operator × Int)} (h : ProductsFit a rest) : Fits a := by
  cases rest with
  | nil => exact h
  | cons p rest =>
    obtain ⟨s, b⟩ := p
    cases s with
    | plus | minus | times => exact h.1

/-- What the products of a row come to fits. -/
theorem ProductsFit.fits {a : Int} {rest : List (Operator × Int)} (h : ProductsFit a rest) :
    Fits (multiply a rest).1 ∧ ∀ p ∈ (multiply a rest).2, Fits p.2 ∧ p.1 ≠ .times := by
  induction rest generalizing a with
  | nil => exact ⟨h, fun p hp => by cases hp⟩
  | cons p rest ih =>
    obtain ⟨s, b⟩ := p
    by_cases hs : s = .times
    · subst hs
      exact ih h.2.2
    · rw [productsFit_cons hs] at h
      rw [multiply_cons hs]
      obtain ⟨hfirst, hrest⟩ := ih h.2
      refine ⟨h.1, fun p hp => ?_⟩
      rcases List.mem_cons.mp hp with rfl | hp
      · exact ⟨hfirst, hs⟩
      · exact hrest p hp

/-! ### Products -/

/-- A round of products on a row that stands behind an operator.  The induction goes along the row: what stands before
an operator is always a digit, since figures end with digits. -/
theorem reduceOnce?_char {before : Option Char} (hs : s ≠ .times) (hbefore : Figure.closes before = true)
    (h : ProductsFit u.value (values rest)) :
    reduceOnce? isProduct before (s.char :: rowText u rest) =
      (multiplyOnce? u rest).map fun p => s.char :: rowText p.1 p.2 := by
  induction rest generalizing s u before with
  | nil =>
    have hskip : reduceOnce? isProduct before (s.char :: (u.text ++ [])) = _ := Figure.reduceOnce?_sign s u stops_nil
    rw [List.append_nil] at hskip
    exact hskip
  | cons p rest ih =>
    obtain ⟨t, f⟩ := p
    by_cases ht : t = .times
    · subst ht
      obtain ⟨r, hr, hrow⟩ := rowText_eq rest
      obtain ⟨hu, hf, hproduct⟩ := h
      show reduceOnce? isProduct before (s.char :: (u.text ++ '*' :: rowText f rest)) = some (s.char :: rowText _ rest)
      rw [hrow, hrow, Figure.reduceOnce?_behind s u f (isProduct_char hs) hr hbefore,
        Figure.resultText_times hu hf hproduct.head]
    · have hf := ((productsFit_cons ht _ _ _).mp h).2
      show reduceOnce? isProduct before (s.char :: (u.text ++ t.char :: rowText f rest)) = _
      rw [Figure.reduceOnce?_sign s u (stops_char ht _), ih ht (Figure.closes_getLast? _) hf, multiplyOnce?_cons ht,
        Option.map_map, Option.map_map]
      rfl

/-- **A round of products** carries out the first product of a row. -/
theorem reduceOnce?_product (h : ProductsFit u.value (values rest)) :
    reduceOnce? isProduct none (rowText u rest) = (multiplyOnce? u rest).map fun p => rowText p.1 p.2 := by
  cases rest with
  | nil => exact Figure.reduceOnce?_alone u
  | cons p rest =>
    obtain ⟨s, f⟩ := p
    by_cases hs : s = .times
    · subst hs
      obtain ⟨r, hr, hrow⟩ := rowText_eq rest
      obtain ⟨hu, hf, hproduct⟩ := h
      show reduceOnce? isProduct none (u.text ++ '*' :: rowText f rest) = some (rowText _ rest)
      rw [hrow, hrow, show '*' = Operator.times.char from rfl, Figure.reduceOnce?_operation u f .times rfl hr rfl]
      exact congrArg (fun t => some (t ++ r)) (Figure.resultText_times hu hf hproduct.head)
    · have hf := ((productsFit_cons hs _ _ _).mp h).2
      show reduceOnce? isProduct none (u.text ++ s.char :: rowText f rest) = _
      rw [Figure.reduceOnce?_text u (stops_char hs _), reduceOnce?_char hs (Figure.closes_getLast? _) hf,
        multiplyOnce?_cons hs, Option.map_map, Option.map_map]
      rfl

/-- A product that is carried out makes one less, and changes nothing of what the products come to. -/
theorem multiply_of_multiplyOnce? (h : multiplyOnce? u rest = some (v, more)) :
    multiply v.value (values more) = multiply u.value (values rest) ∧ products more + 1 = products rest ∧
      (ProductsFit u.value (values rest) → ProductsFit v.value (values more)) := by
  induction rest generalizing u v more with
  | nil => cases h
  | cons p rest ih =>
    obtain ⟨s, f⟩ := p
    by_cases hs : s = .times
    · subst hs
      obtain ⟨rfl, rfl⟩ : Figure.ofInt (u.value * f.value) = v ∧ rest = more := by simpa [multiplyOnce?] using h
      rw [Figure.value_ofInt]
      exact ⟨rfl, by simp [products], fun hfit => hfit.2.2⟩
    · rw [multiplyOnce?_cons hs] at h
      obtain ⟨⟨w, rest'⟩, hw, heq⟩ := Option.map_eq_some_iff.mp h
      obtain ⟨rfl, rfl⟩ : u = v ∧ (s, w) :: rest' = more := by simpa using heq
      obtain ⟨hvalue, hless, hfit⟩ := ih hw
      refine ⟨?_, ?_, ?_⟩
      · show multiply u.value ((s, w.value) :: values rest') = multiply u.value ((s, f.value) :: values rest)
        rw [multiply_cons hs, multiply_cons hs, hvalue]
      · simp only [products, List.countP_cons] at hless ⊢
        omega
      · intro h
        have hf := (productsFit_cons hs _ _ _).mp h
        exact (productsFit_cons hs _ _ _).mpr ⟨hf.1, hfit hf.2⟩

/-- There is no product left only if the products come to the row itself. -/
theorem multiply_of_multiplyOnce?_none (h : multiplyOnce? u rest = none) :
    multiply u.value (values rest) = (u.value, values rest) := by
  induction rest generalizing u with
  | nil => rfl
  | cons p rest ih =>
    obtain ⟨s, f⟩ := p
    by_cases hs : s = .times
    · subst hs
      cases h
    · rw [multiplyOnce?_cons hs] at h
      show multiply u.value ((s, f.value) :: values rest) = _
      rw [multiply_cons hs, ih (Option.map_eq_none_iff.mp h)]
      rfl

/-- **All rounds of products**: what is left is the row with its products carried out. -/
theorem reduce_products (rounds : Nat) (hrounds : products rest ≤ rounds) (h : ProductsFit u.value (values rest)) :
    ∃ v more, reduceRounds isProduct rounds (rowText u rest) = rowText v more ∧
      (v.value, values more) = multiply u.value (values rest) := by
  induction rounds generalizing u rest with
  | zero =>
    cases honce : multiplyOnce? u rest with
    | none => exact ⟨u, rest, rfl, (multiply_of_multiplyOnce?_none honce).symm⟩
    | some p =>
      have hless := (multiply_of_multiplyOnce? honce).2.1
      omega
  | succ rounds ih =>
    have hround := reduceOnce?_product h
    unfold reduceRounds
    rw [hround]
    cases honce : multiplyOnce? u rest with
    | none => exact ⟨u, rest, rfl, (multiply_of_multiplyOnce?_none honce).symm⟩
    | some p =>
      obtain ⟨hvalue, hless, hfit⟩ := multiply_of_multiplyOnce? honce
      obtain ⟨v, more, htext, hv⟩ := ih (by omega) (hfit h)
      exact ⟨v, more, htext, hv.trans hvalue⟩

theorem le_countP_isProduct (u : Figure) (rest : List (Operator × Figure)) :
    products rest ≤ (rowText u rest).countP isProduct := by
  induction rest generalizing u with
  | nil => exact Nat.zero_le _
  | cons p rest ih =>
    obtain ⟨s, f⟩ := p
    have hrest := ih f
    have hone : (if s = .times then 1 else 0) ≤ if isProduct s.char = true then 1 else 0 := by cases s <;> decide
    unfold products at hrest ⊢
    unfold rowText
    simp only [List.countP_append, List.countP_cons, decide_eq_true_eq]
    omega

/-! ### Sums -/

/-- **A round of sums** carries out the first operation of a row. -/
theorem reduceOnce?_sum (hs : s ≠ .times) (hu : Fits u.value) (hf : Fits f.value)
    (h : Fits (s.apply u.value f.value)) :
    reduceOnce? isSum none (rowText u ((s, f) :: rest)) =
      some (rowText (.ofInt (s.apply u.value f.value)) rest) := by
  obtain ⟨r, hr, hrow⟩ := rowText_eq rest
  show reduceOnce? isSum none (u.text ++ s.char :: rowText f rest) = _
  rw [hrow, hrow, Figure.reduceOnce?_operation u f s (isSum_char hs) hr rfl, Figure.resultText_eq hu hf h]

theorem SumsFit.head {a : Int} {rest : List (Operator × Int)} (h : SumsFit a rest) : Fits a := by
  cases rest with
  | nil => exact h
  | cons p rest => exact h.1

/-- **All rounds of sums**: what is left is the figure of the sum. -/
theorem reduce_sums (rounds : Nat) (hrounds : rest.length ≤ rounds) (hu : Fits u.value)
    (hfits : ∀ p ∈ values rest, Fits p.2 ∧ p.1 ≠ .times) (h : SumsFit u.value (values rest)) :
    ∃ v : Figure, reduceRounds isSum rounds (rowText u rest) = v.text ∧ v.value = sum u.value (values rest) ∧
      Fits v.value := by
  induction rest generalizing u rounds with
  | nil =>
    -- The minuses of figures have been counted as operators, so there may be rounds to spare.
    refine ⟨u, ?_, rfl, hu⟩
    cases rounds with
    | zero => rfl
    | succ rounds =>
      have halone : reduceOnce? isSum none (rowText u []) = none := Figure.reduceOnce?_alone u
      unfold reduceRounds
      rw [halone]
      rfl
  | cons p rest ih =>
    obtain ⟨s, f⟩ := p
    obtain ⟨hf, hs⟩ := hfits (s, f.value) List.mem_cons_self
    have hsum : Fits (s.apply u.value f.value) := h.2.head
    cases rounds with
    | zero => cases hrounds
    | succ rounds =>
      have hvalue := Figure.value_ofInt (s.apply u.value f.value)
      obtain ⟨v, htext, hv, hfit⟩ := ih (u := .ofInt (s.apply u.value f.value)) rounds (Nat.le_of_succ_le_succ hrounds)
        (by rw [hvalue]; exact hsum) (fun p hp => hfits p (List.mem_cons_of_mem _ hp)) (by rw [hvalue]; exact h.2)
      refine ⟨v, ?_, ?_, hfit⟩
      · unfold reduceRounds
        rw [reduceOnce?_sum hs hu hf hsum]
        exact htext
      · rw [hv, hvalue]
        rfl

theorem length_le_countP_isSum (u : Figure) (h : ∀ p ∈ rest, p.1 ≠ .times) :
    rest.length ≤ (rowText u rest).countP isSum := by
  induction rest generalizing u with
  | nil => exact Nat.zero_le _
  | cons p rest ih =>
    obtain ⟨s, f⟩ := p
    have hrest := ih f fun p hp => h p (List.mem_cons_of_mem _ hp)
    have hs := isSum_char (h (s, f) List.mem_cons_self)
    unfold rowText
    simp only [List.countP_append, List.countP_cons, hs, if_true, List.length_cons]
    omega

/-! ### All operations -/

/-- A figure stands for its number. -/
theorem settled_text (h : Fits u.value) : ∃ n : Int64, settled u.text = .int n ∧ n.toInt = u.value := by
  obtain ⟨n, hn, hvalue⟩ := Figure.int64?_text h
  refine ⟨n, ?_, hvalue⟩
  have hnumeral : Literal.numeral? u.text = some (Literal.wholeValue u.text) := Literal.numeral?_text _ _
  unfold settled
  rw [hnumeral]
  unfold Literal.wholeValue
  rw [hn]
  rfl

/-- **A row of figures is rewritten to its worth**, products before sums and each from left to right, if all that is
computed on the way can be held. -/
theorem settled_reduce (h : AllFit u.value (values rest)) :
    ∃ n : Int64, settled (reduce isSum (reduce isProduct (rowText u rest))) = .int n ∧
      n.toInt = total u.value (values rest) := by
  obtain ⟨hproducts, hsums⟩ := h
  obtain ⟨v, more, htext, hmultiply⟩ := reduce_products _ (le_countP_isProduct u rest) hproducts
  obtain ⟨hv, hmore⟩ := hproducts.fits
  rw [← hmultiply] at hsums hv hmore
  have hsigns : ∀ p ∈ more, p.1 ≠ .times := fun p hp => (hmore _ (List.mem_map_of_mem hp)).2
  obtain ⟨w, hreduced, hw, hfit⟩ := reduce_sums _ (length_le_countP_isSum v hsigns) hv hmore hsums
  obtain ⟨n, hn, hvalue⟩ := settled_text hfit
  refine ⟨n, ?_, ?_⟩
  · unfold reduce
    rw [htext, hreduced, hn]
  · unfold total
    rw [hvalue, hw, ← hmultiply]

end

end Flowchart.Arithmetic
