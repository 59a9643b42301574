import Flowchart.Proofs.Condition.Formulas
import Flowchart.Proofs.WholeFloats

/-!
# Comparisons of whole numbers

The smallest conditions compare two terms, each a variable or a whole numeral.  The reader finds no connective in
such a text, cuts it at the sign, and reads a variable and a numeral for what they are.  If the variables hold whole
numbers, the comparison comes out as the one of these numbers.

* `Term`, `Compared` — terms and comparisons, as they are written.
* `Condition.Unbroken.word`, `Condition.Unbroken.append` — texts without connectives, put together from words.
* `comparison?_text` — a comparison is cut at its sign.
* `Term.evaluates` — a term is read and evaluated to its value.
* **`Compared.evaluates`** — a comparison of whole numbers comes out as it should.
-/

namespace Flowchart

/-! ### Terms and comparisons -/

/-- A name that is no word for a connective or a negation. -/
structure VariableName where
  text : Text
  isName : Text.isName text = true
  no_connective : ∀ k : Connective, text ≠ k.word
  no_negation : text ≠ Negation.word.text

/-- A whole numeral without a sign. -/
structure Numeral where
  digits : Text
  ne_nil : digits ≠ []
  isDigit : ∀ c ∈ digits, c.isDigit = true

def Numeral.value (n : Numeral) : Nat := Decimal.ofDigits n.digits

/-- What is compared: a variable, or a numeral that may have a minus before it. -/
inductive Term where
  | named (x : VariableName)
  | numeral (negative : Bool) (n : Numeral)

namespace Term

/-- A term as it is written. -/
def text : Term → Text
  | named x => x.text
  | numeral false n => n.digits
  | numeral true n => '-' :: n.digits

/-- The names of the variables in a term. -/
def names : Term → List String
  | named x => [String.ofList x.text]
  | numeral _ _ => []

/-- The whole number that a term stands for. -/
def value (v : String → Int32) : Term → Int
  | named x => (v (String.ofList x.text)).toInt
  | numeral false n => n.value
  | numeral true n => -n.value

/-- A numeral is not too large to be a float without being rounded. -/
def Exact : Term → Prop
  | named _ => True
  | numeral _ n => n.value < 2 ^ 53

instance : (t : Term) → Decidable t.Exact
  | named _ => .isTrue trivial
  | numeral _ n => inferInstanceAs (Decidable (n.value < 2 ^ 53))

end Term

/-- A sign of comparison.  Equality may be written with one sign or with two. -/
def Comparator.sign : Comparator → Bool → Text
  | less, _ => ['<']
  | greater, _ => ['>']
  | atMost, _ => ['<', '=']
  | atLeast, _ => ['>', '=']
  | equal, true => ['=']
  | equal, false => ['=', '=']
  | unequal, _ => ['!', '=']

/-- A comparison of two terms, with blanks around the sign. -/
structure Compared where
  left : Term
  before : Blanks
  comparator : Comparator
  lone : Bool
  after : Blanks
  right : Term

namespace Compared

/-- A comparison as it is written. -/
def text (c : Compared) : Text :=
  c.left.text ++ (c.before.1 ++ (c.comparator.sign c.lone ++ (c.after.1 ++ c.right.text)))

def names (c : Compared) : List String := c.left.names ++ c.right.names

/-- Whether a comparison holds between the numbers. -/
def holds (v : String → Int32) (c : Compared) : Bool := c.comparator.ofInts (c.left.value v) (c.right.value v)

def Exact (c : Compared) : Prop := c.left.Exact ∧ c.right.Exact

instance (c : Compared) : Decidable c.Exact := inferInstanceAs (Decidable (_ ∧ _))

end Compared

/-! ### Texts without connectives -/

namespace Text

/-- No digit begins a name. -/
theorem isDigit_of_isNameStart {c : Char} (h : isNameStart c = true) : isDigit c = false := by
  simp only [isNameStart, Char.isAlpha, Char.isUpper, Char.isLower, Bool.or_eq_true, Bool.and_eq_true,
    decide_eq_true_eq, beq_iff_eq, UInt32.le_iff_toNat_le, ge_iff_le] at h
  change ((65 ≤ c.toNat ∧ c.toNat ≤ 90) ∨ (97 ≤ c.toNat ∧ c.toNat ≤ 122)) ∨ c = '_' at h
  rcases h with h | rfl
  · have hdigit : c.isDigit = false := by
      cases hc : c.isDigit with
      | false => rfl
      | true =>
        simp only [Char.isDigit, Bool.and_eq_true, decide_eq_true_eq, UInt32.le_iff_toNat_le, ge_iff_le] at hc
        change 48 ≤ c.toNat ∧ c.toNat ≤ 57 at hc
        omega
    unfold isDigit
    rw [if_pos (by omega), hdigit]
  · decide

theorem isNamePart_of_isDigit {c : Char} (h : c.isDigit = true) : isNamePart c = true := by
  simp [isNamePart, Char.isAlphanum, h]

end Text

namespace Connective

variable {k : Connective} {c : Char} {t : Text}

theorem single_ne_of_isNamePart (h : Text.isNamePart c = true) : c ≠ k.single := by
  rintro rfl
  revert h
  cases k <;> decide

/-- No connective is found in a word, unless the word is the connective. -/
theorem splitFrom?_word {n : Nesting} {before : Option Char} (h : ∀ c ∈ t, Text.isNamePart c = true)
    (hk : isBoundary before = true → t ≠ k.word) : k.splitFrom? before n t = none := by
  induction t generalizing before n with
  | nil => rfl
  | cons c t ih =>
    have hc : Text.isNamePart c = true := h c List.mem_cons_self
    have hnone : k.after? before (c :: t) = none := by
      refine after?_eq_none_iff.mpr ⟨single_ne_of_isNamePart hc, fun rest hrest hboth => ?_⟩
      cases rest with
      | nil => exact hk hboth.1 (by rw [hrest, List.append_nil])
      | cons d rest =>
        have hd : Text.isNamePart d = true := h d (by rw [hrest]; simp)
        simp [isBoundary, hd] at hboth
    rw [splitFrom?_cons hnone, ih (fun d hd => h d (List.mem_cons_of_mem c hd)) fun hb => by simp [isBoundary, hc] at hb]
    rfl

end Connective

/-- A word opens and closes nothing. -/
theorem Nesting.through?_word {t : Text} (h : ∀ c ∈ t, Text.isNamePart c = true) : through? {} t = some {} := by
  refine through?_plain fun c hc => ?_
  cases hdelimiter : isDelimiter c with
  | false => rfl
  | true =>
    have hpart := h c hc
    simp only [isDelimiter, Bool.or_eq_true, beq_iff_eq] at hdelimiter
    rcases hdelimiter with (rfl | rfl) | rfl <;> cases hpart

/-- Behind a text that ends with a character of a name, a boundary has to follow. -/
theorem Connective.Apart.boundary {t r : Text} {d : Char} (h : Apart t r) (hlast : t.getLast? = some d)
    (hd : Text.isNamePart d = true) : isBoundary r.head? = true := by
  rcases h with h | h
  · rw [hlast] at h
    simp [isBoundary, hd] at h
  · exact h

/-- No name begins or ends with blanks. -/
theorem Connective.apart_blanks (m : Blanks) (r : Text) : Apart m.1 r := by
  refine .inl ?_
  cases hlast : m.1.getLast? with
  | none => rfl
  | some c => simp [isBoundary, Text.isNamePart_of_isBlank (m.2 c (List.mem_of_getLast? hlast))]

namespace Condition.Unbroken

variable {a b t : Text}

/-- Texts without connectives make one if no name goes over from one into the other. -/
theorem append (ha : Unbroken a) (hb : Unbroken b) (h : Connective.Apart a b) : Unbroken (a ++ b) where
  closed := by
    rw [Nesting.through?_append, ha.closed]
    exact hb.closed
  uncut k := by
    unfold Connective.split?
    rw [ha.splitFrom?_append k none h, hb.splitFrom?_eq_none]
    rfl

theorem blanks (m : Blanks) : Unbroken m.1 where
  closed := Nesting.through?_blanks m.2
  uncut k := by
    have hblanks : k.splitFrom? none {} (m.1 ++ []) = _ := Connective.splitFrom?_blanks m.2
    rw [List.append_nil] at hblanks
    unfold Connective.split?
    rw [hblanks]
    rfl

/-- A word is such a text unless it is the word for a connective. -/
theorem word (h : ∀ c ∈ t, Text.isNamePart c = true) (hk : ∀ k : Connective, t ≠ k.word) : Unbroken t where
  closed := Nesting.through?_word h
  uncut k := Connective.splitFrom?_word h fun _ => hk k

theorem sign (c : Comparator) (lone : Bool) : Unbroken (c.sign lone) := by
  refine ⟨?_, fun k => ?_⟩
  · cases c <;> cases lone <;> rfl
  · cases c <;> cases lone <;> cases k <;> rfl

end Condition.Unbroken

/-! ### Terms -/

namespace Term

/-- A term is a word, or one with a minus before it. -/
theorem text_eq_word (t : Term) :
    ∃ minus w : Text, t.text = minus ++ w ∧ (minus = [] ∨ minus = ['-']) ∧ w ≠ [] ∧
      (∀ c ∈ w, Text.isNamePart c = true) ∧ (∀ k : Connective, w ≠ k.word) ∧ w ≠ Negation.word.text := by
  cases t with
  | named x =>
    refine ⟨[], x.text, rfl, .inl rfl, ?_, fun c hc => Text.isNamePart_of_mem_name x.isName hc, x.no_connective,
      x.no_negation⟩
    intro hnil
    have hname := x.isName
    rw [hnil] at hname
    cases hname
  | numeral negative n =>
    have hword : ∀ k : Connective, n.digits ≠ k.word := by
      intro k hk
      have hdigit : ∀ c ∈ k.word, c.isDigit = true := hk ▸ n.isDigit
      cases k with
      | and => exact absurd (hdigit 'A' List.mem_cons_self) (by decide)
      | or => exact absurd (hdigit 'O' List.mem_cons_self) (by decide)
    have hnot : n.digits ≠ Negation.word.text := by
      intro hk
      have hdigit : ∀ c ∈ Negation.word.text, c.isDigit = true := hk ▸ n.isDigit
      exact absurd (hdigit 'N' List.mem_cons_self) (by decide)
    have hparts : ∀ c ∈ n.digits, Text.isNamePart c = true := fun c hc => Text.isNamePart_of_isDigit (n.isDigit c hc)
    cases negative with
    | false => exact ⟨[], n.digits, rfl, .inl rfl, n.ne_nil, hparts, hword, hnot⟩
    | true => exact ⟨['-'], n.digits, rfl, .inr rfl, n.ne_nil, hparts, hword, hnot⟩

theorem unbroken (t : Term) : Condition.Unbroken t.text := by
  obtain ⟨minus, w, htext, hminus, -, hparts, hword, -⟩ := t.text_eq_word
  have hw : Condition.Unbroken w := .word hparts hword
  rw [htext]
  rcases hminus with rfl | rfl
  · exact hw
  · exact .append ⟨rfl, fun k => by cases k <;> rfl⟩ hw (.inl rfl)

/-- The last character of a term is one of a name. -/
theorem isNamePart_getLast? (t : Term) : ∃ c, t.text.getLast? = some c ∧ Text.isNamePart c = true := by
  obtain ⟨minus, w, htext, -, hne, hparts, -⟩ := t.text_eq_word
  refine ⟨w.getLast hne, ?_, hparts _ (List.getLast_mem hne)⟩
  rw [htext, List.getLast?_append_of_ne_nil _ hne, List.getLast?_eq_some_getLast hne]

/-- The first character of a term is one of a name, or a minus. -/
theorem head?_text (t : Term) : ∃ c, t.text.head? = some c ∧ (c = '-' ∨ Text.isNamePart c = true) := by
  obtain ⟨minus, w, htext, hminus, hne, hparts, -⟩ := t.text_eq_word
  rcases hminus with rfl | rfl
  · refine ⟨w.head hne, ?_, .inr (hparts _ (List.head_mem hne))⟩
    rw [htext, List.nil_append, List.head?_eq_some_head hne]
  · exact ⟨'-', by rw [htext]; rfl, .inl rfl⟩

theorem isBlank_of_start {c : Char} (h : c = '-' ∨ Text.isNamePart c = true) : Text.isBlank c = false := by
  rcases h with rfl | h
  · rfl
  · cases hblank : Text.isBlank c with
    | false => rfl
    | true =>
      rw [Text.isNamePart_of_isBlank hblank] at h
      cases h

theorem tidy (t : Term) : Condition.Tidy t.text := by
  obtain ⟨c, hc, hstart⟩ := t.head?_text
  obtain ⟨d, hd, hend⟩ := t.isNamePart_getLast?
  refine ⟨?_, ?_, ?_, ?_⟩
  · intro hnil
    rw [hnil] at hc
    cases hc
  · rw [hc]
    rintro _ ⟨⟩
    exact isBlank_of_start hstart
  · rw [hd]
    rintro _ ⟨⟩
    exact isBlank_of_start (.inr hend)
  · rw [hd]
    rintro ⟨⟩
    revert hend
    decide

end Term

/-! ### The text of a comparison -/

namespace Comparator

/-- A sign of comparison is found, unless it could be the beginning of a longer one. -/
theorem comparatorAt?_sign (c : Comparator) (lone : Bool) {t side : Text} (ht : t.head? ≠ some '=')
    (hside : rightSide? t = some side) : comparatorAt? (c.sign lone ++ t) = some (c, side) := by
  have hequal : ∀ rest, Text.after? ('=' :: rest) t = none := by
    intro rest
    cases t with
    | nil => rfl
    | cons d t => exact if_neg fun h => ht (congrArg some h.symm)
  cases c <;> cases lone <;>
    simp [comparatorAt?, signs, sign, Text.after?, hequal, hside, List.findSome?]

/-- No name goes on with a sign of comparison. -/
theorem isBoundary_sign (c : Comparator) (lone : Bool) (r : Text) :
    Connective.isBoundary (c.sign lone ++ r).head? = true := by
  cases c <;> cases lone <;> rfl

/-- No sign of comparison begins with a character of a name. -/
theorem comparatorAt?_of_isNamePart {c : Char} (h : Text.isNamePart c = true) (t : Text) :
    comparatorAt? (c :: t) = none := by
  have hne : c ≠ '<' ∧ c ≠ '>' ∧ c ≠ '=' ∧ c ≠ '!' := by
    refine ⟨?_, ?_, ?_, ?_⟩ <;> rintro rfl <;> revert h <;> decide
  simp [comparatorAt?, signs, Text.after?, List.findSome?, hne.1.symm, hne.2.1.symm, hne.2.2.1.symm, hne.2.2.2.symm]

end Comparator

/-- A text that begins like no negation is none. -/
theorem negated?_of_head {c : Char} {t : Text} (hword : c ≠ 'N') (hsign : c ≠ '!') : negated? (c :: t) = none := by
  have hno : Text.after? "NOT".toList (c :: t) = none := if_neg (Ne.symm hword)
  unfold negated?
  rw [hno]
  dsimp only
  split
  · rfl
  · next h => exact absurd (List.cons.inj h).1 hsign
  · rfl

/-- A name is no negation, even if it begins with the word. -/
theorem negated?_name (x : VariableName) {r : Text} (hr : Connective.isBoundary r.head? = true) :
    negated? (x.text ++ r) = none := by
  obtain ⟨c, u, hu⟩ : ∃ c u, x.text = c :: u := List.exists_cons_of_ne_nil (Term.named x).tidy.ne_nil
  have hparts : ∀ d ∈ x.text, Text.isNamePart d = true := fun d hd => Text.isNamePart_of_mem_name x.isName hd
  have hword : ∀ d rest, Text.after? "NOT".toList (x.text ++ r) = some (d :: rest) → Text.isNamePart d = true := by
    intro d rest hafter
    rcases List.append_eq_append_iff.mp (Text.after?_eq_some_iff.mp hafter) with
      ⟨beyond, hbeyond, hr'⟩ | ⟨more, hmore, hd⟩
    · -- The name ends inside the word or with it.
      cases beyond with
      | nil =>
        rw [List.append_nil] at hbeyond
        exact absurd hbeyond.symm x.no_negation
      | cons e beyond =>
        have he : Text.isNamePart e = true := by
          have hall : ∀ b ∈ "NOT".toList, Text.isNamePart b = true := List.all_eq_true.mp rfl
          exact hall e (by rw [hbeyond]; simp)
        rw [hr'] at hr
        simp [Connective.isBoundary, he] at hr
    · cases more with
      | nil =>
        rw [List.append_nil] at hmore
        exact absurd hmore x.no_negation
      | cons e more =>
        rw [(List.cons.inj hd).1]
        exact hparts e (by rw [hmore]; simp)
  have hsign : c ≠ '!' := by
    rintro rfl
    have hpart := hparts '!' (by rw [hu]; exact List.mem_cons_self)
    exact absurd hpart (by decide)
  rw [hu, List.cons_append] at hword ⊢
  unfold negated?
  dsimp only
  split
  · next operand hoperand =>
    split at hoperand
    · next d rest hafter =>
      rw [if_pos (hword d rest hafter)] at hoperand
      cases hoperand
    · cases hoperand
  · split
    · rfl
    · next h => exact absurd (List.cons.inj h).1 hsign
    · rfl

/-- A text is cut at the first sign of comparison. -/
theorem comparison?_text {c : Char} {w side t : Text} {m : Text} (comparator : Comparator) (lone : Bool)
    (hc : c ≠ '\n') (hw : ∀ d ∈ w, Text.isNamePart d = true) (hm : ∀ d ∈ m, Text.isBlank d = true)
    (ht : t.head? ≠ some '=') (hside : rightSide? t = some side) :
    comparison? (c :: (w ++ (m ++ (comparator.sign lone ++ t)))) = some ⟨c :: w, comparator, side⟩ := by
  induction w generalizing c with
  | nil =>
    have hsign : ∀ d ∈ (comparator.sign lone ++ t).head?, Text.isBlank d = false := by
      cases comparator <;> cases lone <;> rintro _ ⟨⟩ <;> rfl
    rw [comparison?, if_neg hc, List.nil_append, Text.trimStart_append hm hsign,
      Comparator.comparatorAt?_sign comparator lone ht hside]
  | cons d w ih =>
    have hd : Text.isNamePart d = true := hw d List.mem_cons_self
    have hline : d ≠ '\n' := by
      rintro rfl
      revert hd
      decide
    have hkeep : Text.trimStart (d :: (w ++ (m ++ (comparator.sign lone ++ t)))) =
        d :: (w ++ (m ++ (comparator.sign lone ++ t))) :=
      List.dropWhile_cons_of_neg (by rw [Term.isBlank_of_start (.inr hd)]; decide)
    rw [comparison?, if_neg hc, List.cons_append, hkeep, Comparator.comparatorAt?_of_isNamePart hd]
    dsimp only
    rw [ih hline fun b hb => hw b (List.mem_cons_of_mem d hb)]
    rfl

/-! ### The values of terms -/

namespace Condition

/-- A tidy text has no margins. -/
theorem Tidy.trim_eq {t : Text} (h : Tidy t) : Text.trim t = t := Text.trim_eq_of_edges h.first h.last

end Condition

/-- No arithmetic is asked for by a name. -/
theorem Arithmetic.hasOperator_name {t : Text} (h : Text.isName t = true) : hasOperator t = false := by
  have hplain : ∀ {c : Char}, Text.isNamePart c = true → c ≠ '"' ∧ isOperator c = false := by
    intro c hc
    have hne : c ≠ '"' ∧ c ≠ '+' ∧ c ≠ '-' ∧ c ≠ '*' ∧ c ≠ '/' := by
      refine ⟨?_, ?_, ?_, ?_, ?_⟩ <;> rintro rfl <;> revert hc <;> decide
    exact ⟨hne.1, by simp [isOperator, hne]⟩
  have hrest : ∀ u : Text, (∀ c ∈ u, Text.isNamePart c = true) → operatorIn false u = false := by
    intro u hu
    induction u with
    | nil => rfl
    | cons c u ih =>
      obtain ⟨hquote, hoperator⟩ := hplain (hu c List.mem_cons_self)
      simp [operatorIn, hquote, hoperator, ih fun d hd => hu d (List.mem_cons_of_mem c hd)]
  cases t with
  | nil => cases h
  | cons c t =>
    have hparts : ∀ d ∈ c :: t, Text.isNamePart d = true := fun d hd => Text.isNamePart_of_mem_name h hd
    obtain ⟨hquote, hoperator⟩ := hplain (hparts c List.mem_cons_self)
    have hsign : c ≠ '+' ∧ c ≠ '-' := by
      constructor <;> rintro rfl <;> exact absurd hoperator (by decide)
    have hunquoted : (c == '"') = false := beq_eq_false_iff_ne.mpr hquote
    simp [hasOperator, isSignedName, hsign, hunquoted, hrest t fun d hd => hparts d (List.mem_cons_of_mem c hd)]

/-- Without a parenthesis there is no call. -/
theorem Literal.call?_eq_none {t : Text} (h : '(' ∉ t) : call? t = none := by
  have hall : ∀ c ∈ t, (c != '(') = true := by
    intro c hc
    rw [bne_iff_ne]
    rintro rfl
    exact h hc
  have hdrop := @List.dropWhile_append_of_pos _ _ t [] hall
  rw [List.append_nil] at hdrop
  simp [call?, hdrop, Text.enclosed?]

/-- What begins as names do is no literal. -/
theorem Expression.literal?_of_isNameStart {c : Char} (h : Text.isNameStart c = true) (t : Text) :
    literal? (c :: t) = none := by
  have hne : c ≠ '-' ∧ c ≠ '"' := by
    constructor <;> rintro rfl <;> exact absurd h (by decide)
  have hdigit : Text.isDigit c = false := Text.isDigit_of_isNameStart h
  simp [literal?, Literal.numeral?, Literal.isWholeNumeral, Literal.isDecimalNumeral, Literal.withoutMinus,
    Literal.isDigits, Literal.quoted?, hne, hdigit]

/-- A name is read as a variable. -/
theorem Expression.read_name (x : VariableName) : read x.text = .named (String.ofList x.text) := by
  have htrim : Text.trim x.text = x.text := (Term.named x).tidy.trim_eq
  have hname := x.isName
  obtain ⟨c, u, hu⟩ : ∃ c u, x.text = c :: u := by
    cases h : x.text with
    | nil =>
      rw [h] at hname
      cases hname
    | cons c u => exact ⟨c, u, rfl⟩
  have hparts : ∀ d ∈ x.text, Text.isNamePart d = true := fun d hd => Text.isNamePart_of_mem_name hname hd
  have hstart : Text.isNameStart c = true := by
    rw [hu] at hname
    simp only [Text.isName, Bool.and_eq_true] at hname
    exact hname.1
  have hliteral : literal? x.text = none := by
    rw [hu]
    exact literal?_of_isNameStart hstart u
  have hcall : Literal.call? x.text = none := Literal.call?_eq_none fun hmem => absurd (hparts '(' hmem) (by decide)
  rw [read_eq, htrim, hliteral, hcall]
  show readOperand x.text = _
  unfold readOperand
  rw [Arithmetic.hasOperator_name hname, hname]
  rfl

/-- A numeral is one for the reader, with a minus or without. -/
theorem Literal.numeral?_text (negative : Bool) (n : Numeral) :
    numeral? (Term.numeral negative n).text = some (wholeValue (Term.numeral negative n).text) := by
  have hdigits : isDigits n.digits = true := by
    have hne := n.ne_nil
    simp only [isDigits, Bool.and_eq_true, List.all_eq_true]
    exact ⟨by simpa using hne, fun c hc => Text.isDigit_of_ascii (n.isDigit c hc)⟩
  refine if_pos ?_
  cases negative with
  | true => exact hdigits
  | false =>
    have hkeep : withoutMinus n.digits = n.digits := by
      unfold withoutMinus
      split
      · next t ht =>
        have hminus := n.isDigit '-' (by rw [ht]; exact List.mem_cons_self)
        exact absurd hminus (by decide)
      · rfl
    show isDigits (withoutMinus n.digits) = true
    rw [hkeep, hdigits]

/-- A numeral is read as a literal. -/
theorem Expression.read_numeral (negative : Bool) (n : Numeral) :
    read (Term.numeral negative n).text = .literal (Literal.wholeValue (Term.numeral negative n).text) := by
  have hliteral : literal? (Term.numeral negative n).text =
      some (Literal.wholeValue (Term.numeral negative n).text) := by
    unfold literal?
    rw [Literal.numeral?_text]
    rfl
  rw [read_eq, (Term.numeral negative n).tidy.trim_eq, hliteral]

namespace Term

/-- A numeral stands for the number that its digits write. -/
theorem integer?_numeral (negative : Bool) (n : Numeral) :
    Decimal.integer? (numeral negative n).text = some ((numeral negative n).value fun _ => 0) := by
  have hnatural : Decimal.natural? n.digits = some n.value := by
    have hne := n.ne_nil
    refine if_pos ?_
    simp only [Bool.and_eq_true, List.all_eq_true]
    exact ⟨by simpa using hne, n.isDigit⟩
  cases negative with
  | true =>
    simp only [text, Decimal.integer?, hnatural]
    rfl
  | false =>
    show Decimal.integer? n.digits = _
    unfold Decimal.integer?
    split
    · next t ht =>
      have hminus := n.isDigit '-' (by rw [ht]; exact List.mem_cons_self)
      exact absurd hminus (by decide)
    · rw [hnatural]
      rfl

variable {v : String → Int32}

/-- The numbers of terms are below `2 ^ 53`. -/
theorem natAbs_value_lt {t : Term} (h : t.Exact) : (t.value v).natAbs < 2 ^ 53 := by
  cases t with
  | named x =>
    have hlow := (v (String.ofList x.text)).le_toInt
    have hhigh := (v (String.ofList x.text)).toInt_lt
    show ((v (String.ofList x.text)).toInt).natAbs < 2 ^ 53
    omega
  | numeral negative n =>
    have hn : n.value < 2 ^ 53 := h
    cases negative <;> simp only [value] <;> omega

variable {σ : Type} {env : Environment σ} {s : σ}

/-- A variable is evaluated to what it holds. -/
theorem evaluate_named {x : VariableName} {value : Value} (h : env.lookup s (String.ofList x.text) = some value) :
    evaluate env x.text s = .done value s := by
  show (Expression.read x.text).eval env s = _
  rw [Expression.read_name]
  simp [Expression.eval, Environment.variableValue, h]

/-- **A term is evaluated to its value.** -/
theorem evaluates {t : Term} (h : t.Exact) (hv : ∀ name ∈ t.names, env.lookup s name = some (.int (v name).toInt64)) :
    ∃ k : Int64, evaluate env t.text s = .done (.int k) s ∧ k.toInt = t.value v := by
  cases t with
  | named x =>
    have hlookup := hv (String.ofList x.text) (List.mem_singleton_self _)
    exact ⟨(v (String.ofList x.text)).toInt64, evaluate_named hlookup, Int32.toInt_toInt64 _⟩
  | numeral negative n =>
    have hbound := natAbs_value_lt (v := fun _ => 0) h
    obtain ⟨k, hk⟩ : ∃ k, int64Of? ((numeral negative n).value fun _ => 0) = some k := by
      refine ⟨_, if_pos ⟨?_, ?_⟩⟩
      · show (-9223372036854775808 : Int) ≤ _
        omega
      · show _ ≤ (9223372036854775807 : Int)
        omega
    have hint64 : Literal.int64? (numeral negative n).text = some k := by
      unfold Literal.int64?
      rw [integer?_numeral]
      exact hk
    refine ⟨k, ?_, ?_⟩
    · unfold evaluate
      rw [Expression.read_numeral]
      unfold Literal.wholeValue
      rw [hint64]
      rfl
    · rw [toInt_of_int64Of hk]
      cases negative <;> rfl

end Term

/-! ### Comparisons -/

namespace Compared

variable {c : Compared}

/-- What follows the blanks after the sign is the term on the right. -/
theorem rightSide?_text (c : Compared) : rightSide? (c.after.1 ++ c.right.text) = some c.right.text := by
  have htidy := c.right.tidy
  have htrim : Text.trimStart (c.after.1 ++ c.right.text) = c.right.text := Text.trimStart_append c.after.2 htidy.first
  have hline : c.right.text.contains '\n' = false := by
    obtain ⟨minus, w, htext, hminus, -, hparts, -⟩ := c.right.text_eq_word
    have hword : '\n' ∉ w := fun hmem => absurd (hparts _ hmem) (by decide)
    rw [htext]
    rcases hminus with rfl | rfl <;> simp [hword]
  have hempty : c.right.text.isEmpty = false := by
    have hne := htidy.ne_nil
    simpa using hne
  unfold rightSide?
  dsimp only
  rw [htrim, hempty, hline]
  rfl

theorem head?_after_ne (c : Compared) : (c.after.1 ++ c.right.text).head? ≠ some '=' := by
  obtain ⟨d, hd, hstart⟩ := c.right.head?_text
  refine Text.head?_blanks_ne rfl c.after.2 ?_
  rw [hd]
  rintro ⟨⟩
  rcases hstart with h | h <;> exact absurd h (by decide)

/-- No name goes over from the left term into what follows it. -/
theorem apart_left (c : Compared) (r : Text) :
    Connective.Apart c.left.text (c.before.1 ++ (c.comparator.sign c.lone ++ r)) :=
  .inr (Connective.isBoundary_blanks c.before.2 (c.comparator.isBoundary_sign c.lone r))

/-- **No connective is found in a comparison.** -/
theorem unbroken (c : Compared) : Condition.Unbroken c.text := by
  have hsign : ∀ r, Connective.Apart (c.comparator.sign c.lone) r := by
    intro r
    refine .inl ?_
    cases c.comparator <;> cases c.lone <;> rfl
  have hright : Condition.Unbroken (c.after.1 ++ c.right.text) :=
    .append (.blanks c.after) c.right.unbroken (Connective.apart_blanks c.after _)
  have hmiddle : Condition.Unbroken (c.comparator.sign c.lone ++ (c.after.1 ++ c.right.text)) :=
    .append (.sign _ _) hright (hsign _)
  exact .append c.left.unbroken (.append (.blanks c.before) hmiddle (Connective.apart_blanks c.before _))
    (c.apart_left _)

theorem tidy (c : Compared) : Condition.Tidy c.text := by
  have htidy := c.left.tidy.append c.right.tidy (c.before.1 ++ (c.comparator.sign c.lone ++ c.after.1))
  simpa [text] using htidy

/-- A comparison ends like a term. -/
theorem isNamePart_getLast? (c : Compared) : ∃ d, c.text.getLast? = some d ∧ Text.isNamePart d = true := by
  obtain ⟨d, hd, hend⟩ := c.right.isNamePart_getLast?
  refine ⟨d, ?_, hend⟩
  unfold text
  simp [List.getLast?_append, hd]

/-- A comparison begins like a term. -/
theorem text_eq_cons (c : Compared) : ∃ d w, c.left.text = d :: w ∧ (d = '-' ∨ Text.isNamePart d = true) ∧
    ∀ b ∈ w, Text.isNamePart b = true := by
  obtain ⟨minus, w, htext, hminus, hne, hparts, -⟩ := c.left.text_eq_word
  rcases hminus with rfl | rfl
  · obtain ⟨d, u, rfl⟩ := List.exists_cons_of_ne_nil hne
    exact ⟨d, u, htext, .inr (hparts d List.mem_cons_self), fun b hb => hparts b (List.mem_cons_of_mem d hb)⟩
  · exact ⟨'-', w, htext, .inl rfl, hparts⟩

/-- A comparison is no negation. -/
theorem negated?_text (c : Compared) : negated? c.text = none := by
  unfold text
  have happart := c.apart_left (c.after.1 ++ c.right.text)
  generalize c.before.1 ++ (c.comparator.sign c.lone ++ (c.after.1 ++ c.right.text)) = r at happart ⊢
  cases hleft : c.left with
  | named x =>
    rw [hleft] at happart
    obtain ⟨d, hd, hpart⟩ := (Term.named x).isNamePart_getLast?
    exact negated?_name x (happart.boundary hd hpart)
  | numeral negative n =>
    have hhead : ∀ d ∈ (Term.numeral negative n).text.head?, d ≠ 'N' ∧ d ≠ '!' := by
      cases negative with
      | true =>
        rintro _ ⟨⟩
        decide
      | false =>
        intro d hd
        have hdigit := n.isDigit d (List.mem_of_mem_head? hd)
        constructor <;> rintro rfl <;> exact absurd hdigit (by decide)
    cases htext : (Term.numeral negative n).text with
    | nil => exact absurd htext (Term.numeral negative n).tidy.ne_nil
    | cons d u =>
      obtain ⟨hN, hsign⟩ := hhead d (by rw [htext]; rfl)
      exact negated?_of_head hN hsign

/-- Nor does it stand in parentheses. -/
theorem enclosed?_text (c : Compared) : Text.enclosed? c.text = none := by
  obtain ⟨d, w, hleft, hstart, -⟩ := c.text_eq_cons
  have hne : d ≠ '(' := by
    rintro rfl
    rcases hstart with h | h <;> exact absurd h (by decide)
  unfold text
  rw [hleft, List.cons_append]
  unfold Text.enclosed?
  split
  · next h => exact absurd (List.cons.inj h).1 hne
  · rfl

/-- A comparison is cut at its sign. -/
theorem comparison?_text (c : Compared) :
    Flowchart.comparison? c.text = some ⟨c.left.text, c.comparator, c.right.text⟩ := by
  obtain ⟨d, w, hleft, hstart, hparts⟩ := c.text_eq_cons
  have hline : d ≠ '\n' := by
    rintro rfl
    rcases hstart with h | h <;> exact absurd h (by decide)
  unfold text
  rw [hleft, List.cons_append]
  exact Flowchart.comparison?_text _ _ hline hparts c.before.2 c.head?_after_ne c.rightSide?_text

variable {v : String → Int32} {σ : Type} {env : Environment σ} {s : σ}

/-- A comparison comes out as the one of the values of its terms. -/
theorem evaluates_of_values {u w : Value} (hleft : evaluate env c.left.text s = .done u s)
    (hright : evaluate env c.right.text s = .done w s) :
    evaluateCondition env c.text s = .done (c.comparator.holds u w) s := by
  have hquestion := c.tidy.question_eq
  have hread : Condition.readAtom c.text =
      .compared c.comparator (Expression.read c.left.text) (Expression.read c.right.text) := by
    unfold Condition.readAtom
    rw [c.comparison?_text]
  rw [evaluateCondition_of_readAtom env (by rw [hquestion]; exact c.unbroken.uncut)
    (by rw [hquestion]; exact c.negated?_text) (by rw [hquestion]; exact c.enclosed?_text), hquestion, hread]
  unfold evaluate at hleft hright
  simp only [Condition.eval, Action.bind_apply, hleft, hright, Outcome.andThen, Action.pure_apply]

/-- **A comparison of whole numbers comes out as it should**, and changes nothing. -/
theorem evaluates (h : c.Exact) (hv : ∀ name ∈ c.names, env.lookup s name = some (.int (v name).toInt64)) :
    evaluateCondition env c.text s = .done (c.holds v) s := by
  obtain ⟨a, hleft, ha⟩ := c.left.evaluates h.1 fun name hname => hv name (List.mem_append_left _ hname)
  obtain ⟨b, hright, hb⟩ := c.right.evaluates h.2 fun name hname => hv name (List.mem_append_right _ hname)
  have hholds : c.comparator.holds (.int a) (.int b) = c.holds v := by
    show c.comparator.ofFloats (Float.ofInt a.toInt) (Float.ofInt b.toInt) = _
    rw [ha, hb]
    exact Comparator.ofFloats_ofInt _ (Term.natAbs_value_lt h.1) (Term.natAbs_value_lt h.2)
  rw [evaluates_of_values hleft hright, hholds]

end Compared

end Flowchart
