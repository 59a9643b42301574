import Flowchart.Proofs.Arithmetic.Signs
import Flowchart.Proofs.Condition.Respelling

/-!
# Calculations in whole numbers

A calculation joins factors by pluses, minuses and signs of multiplication.  A factor is a whole numeral or a variable
that holds a whole number, with any number of signs before it, and there may be blanks between all of these.  The
evaluator never sees this structure: it rewrites the text.  The result is nevertheless the worth of the calculation.

* `Quantity`, `Factor`, `Member`, `Calculation` — calculations, with `text` as they are written and `value` as they are
  understood: signs before products, products before sums, and each from left to right.
* `Text.replaceRuns_word`, `operands_quantity` — names are replaced one by one, and blanks are taken out.
* `Factor.signed`, `Member.signed` — what becomes of a factor: a numeral, behind a run of signs that may hold a minus of
  the number.
* `Calculation.operands_text` — the text of a calculation becomes that of signed numerals.
* `Calculation.read_text` — a calculation is read as one.
* **`Calculation.evaluate_text`** — it is evaluated to its worth, if everything that is computed on the way can be held.
-/

namespace Flowchart

/-! ### Runs replaced -/

namespace Text

variable {replacement? : Text → Option Text} {c : Char} {t r : Text}

/-- No name begins with a digit. -/
theorem isNameStart_of_isDigit (h : c.isDigit = true) : isNameStart c = false := by
  by_contra hstart
  have hno := isDigit_of_isNameStart (eq_true_of_ne_false hstart)
  rw [isDigit_of_ascii h] at hno
  cases hno

/-- A word is replaced by itself if no word goes on behind it. -/
theorem replaceRuns_word (hne : t ≠ []) (hword : ∀ c ∈ t, isNamePart c = true) (hr : ∀ d ∈ r.head?, isWord d = false) :
    replaceRuns replacement? (t ++ r) = (replacement? t).getD t ++ replaceRuns replacement? r := by
  unfold replaceRuns
  rw [runs_append_word hne (fun c hc => isWord_of_isNamePart (hword c hc)) hr, List.flatMap_cons]

/-- Outside words, nothing is replaced if only words have replacements. -/
theorem replaceRuns_cons (h : ∀ c t, isWord c = false → replacement? (c :: t) = none) (hc : isWord c = false) :
    replaceRuns replacement? (c :: r) = c :: replaceRuns replacement? r := by
  unfold replaceRuns
  rw [runs]
  split
  · next d q rest hruns =>
    rw [hruns]
    split
    · next hsame =>
      have hd : isWord d = false := by rw [← hsame, hc]
      simp [h _ _ hc, h _ _ hd]
    · simp [h _ _ hc]
  · simp [h _ _ hc]

end Text

namespace Arithmetic

/-! ### Texts without names and blanks -/

/-- A text with the names of numbers replaced and the blanks taken out. -/
def operands (lookup : String → Option Value) (t : Text) : Text :=
  (substitute lookup t).filter fun c => !Text.isBlank c

section

variable {lookup : String → Option Value} {c : Char} {t r : Text}

theorem isName_of_not_word (hc : Text.isWord c = false) (t : Text) : Text.isName (c :: t) = false := by
  have hstart : Text.isNameStart c = false := by
    by_contra hstart
    have hpart := Text.isNamePart_of_isNameStart (eq_true_of_ne_false hstart)
    rw [Text.isWord_of_isNamePart hpart] at hc
    cases hc
  simp [Text.isName, hstart]

theorem substitute_cons (hc : Text.isWord c = false) : substitute lookup (c :: r) = c :: substitute lookup r := by
  unfold substitute
  exact Text.replaceRuns_cons (fun d t hd => by rw [isName_of_not_word hd]; rfl) hc

theorem operands_blanks (m : Blanks) (r : Text) : operands lookup (m.1 ++ r) = operands lookup r := by
  obtain ⟨m, hm⟩ := m
  induction m with
  | nil => rfl
  | cons c m ih =>
    have hblank := hm c List.mem_cons_self
    have hrest := ih fun d hd => hm d (List.mem_cons_of_mem c hd)
    unfold operands at hrest ⊢
    rw [List.cons_append, substitute_cons (Text.isWord_of_isBlank hblank), List.filter_cons_of_neg (by simp [hblank])]
    exact hrest

theorem operands_char (s : Operator) (r : Text) : operands lookup (s.char :: r) = s.char :: operands lookup r := by
  have hs : Text.isWord s.char = false ∧ Text.isBlank s.char = false := by
    cases s <;> decide
  unfold operands
  rw [substitute_cons hs.1, List.filter_cons_of_pos (by simp [hs.2])]

/-- What stands for a word is left if there are no blanks in it. -/
theorem operands_word (hne : t ≠ []) (hword : ∀ c ∈ t, Text.isNamePart c = true)
    (hr : ∀ d ∈ r.head?, Text.isWord d = false) {u : Text}
    (hu : (if Text.isName t then (lookup (String.ofList t)).bind numeralOf? else none).getD t = u)
    (hplain : ∀ c ∈ u, Text.isBlank c = false) : operands lookup (t ++ r) = u ++ operands lookup r := by
  have hkeep : u.filter (fun c => !Text.isBlank c) = u :=
    List.filter_eq_self.mpr fun c hc => by rw [hplain c hc]; rfl
  unfold operands substitute
  rw [Text.replaceRuns_word hne hword hr, List.filter_append, hu, hkeep]

end

/-! ### Quantities -/

/-- A whole numeral or the name of a variable. -/
inductive Quantity where
  | numeral (n : Numeral)
  | named (x : Text) (isName : Text.isName x = true)

namespace Quantity

/-- A quantity as it is written. -/
def text : Quantity → Text
  | numeral n => n.digits
  | named x _ => x

/-- The names of the variables in a quantity. -/
def names : Quantity → List String
  | numeral _ => []
  | named x _ => [String.ofList x]

/-- The number that a quantity stands for. -/
def value (v : String → Int64) : Quantity → Int
  | numeral n => n.value
  | named x _ => (v (String.ofList x)).toInt

/-- The figure that is written for a quantity. -/
def figure (v : String → Int64) : Quantity → Figure
  | numeral n => ⟨false, n⟩
  | named x _ => .ofInt (v (String.ofList x)).toInt

variable (q : Quantity) (v : String → Int64)

theorem value_figure : (q.figure v).value = q.value v := by
  cases q with
  | numeral n => rfl
  | named x h => exact Figure.value_ofInt _

theorem text_ne_nil : q.text ≠ [] := by
  cases q with
  | numeral n => exact n.ne_nil
  | named x h =>
    intro hnil
    rw [show x = [] from hnil] at h
    cases h

theorem isNamePart_text : ∀ c ∈ q.text, Text.isNamePart c = true := by
  cases q with
  | numeral n => exact fun c hc => Text.isNamePart_of_isDigit (n.isDigit c hc)
  | named x h => exact fun c hc => Text.isNamePart_of_mem_name h hc

variable {q v} {lookup : String → Option Value} {r : Text}

/-- **A quantity becomes its figure.** -/
theorem operands_text (hv : ∀ x ∈ q.names, lookup x = some (.int (v x))) (hr : ∀ d ∈ r.head?, Text.isWord d = false) :
    operands lookup (q.text ++ r) = (q.figure v).text ++ operands lookup r := by
  have hfigure : ∀ f : Figure, ∀ c ∈ f.text, Text.isBlank c = false := by
    intro f c hc
    refine Term.isBlank_of_start ?_
    obtain ⟨negative, n⟩ := f
    cases negative with
    | false => exact .inr (Text.isNamePart_of_isDigit (n.isDigit c hc))
    | true =>
      rcases List.mem_cons.mp hc with rfl | hc
      · exact .inl rfl
      · exact .inr (Text.isNamePart_of_isDigit (n.isDigit c hc))
  refine operands_word q.text_ne_nil q.isNamePart_text hr ?_ (hfigure _)
  cases q with
  | numeral n =>
    obtain ⟨d, ds, hdigits⟩ := List.exists_cons_of_ne_nil n.ne_nil
    have hd := n.isDigit d (by rw [hdigits]; exact List.mem_cons_self)
    have hname : Text.isName n.digits = false := by
      rw [hdigits]
      simp [Text.isName, Text.isNameStart_of_isDigit hd]
    show (if Text.isName n.digits then _ else none).getD n.digits = n.digits
    rw [hname]
    rfl
  | named x h =>
    have hlookup := hv (String.ofList x) (List.mem_singleton_self _)
    show (if Text.isName x then (lookup (String.ofList x)).bind numeralOf? else none).getD x =
      (Figure.ofInt (v (String.ofList x)).toInt).text
    rw [h, hlookup, Figure.text_ofInt]
    rfl

end Quantity

/-! ### Factors -/

/-- A sign with the blanks behind it. -/
structure Sign where
  negative : Bool
  gap : Blanks

namespace Sign

def operator (s : Sign) : Operator := if s.negative then .minus else .plus

def text (s : Sign) : Text := s.operator.char :: s.gap.1

/-- What a sign makes of a number. -/
def apply (s : Sign) (n : Int) : Int := if s.negative then -n else n

end Sign

/-- A quantity with signs before it. -/
structure Factor where
  signs : List Sign
  quantity : Quantity

/-- The number of a figure with the sign that a run of signs comes to. -/
def signedValue (run : Text) (n : Numeral) : Int := Figure.value ⟨run.count '-' % 2 == 1, n⟩

theorem signedValue_minus (run : Text) (n : Numeral) : signedValue ('-' :: run) n = -signedValue run n := by
  unfold signedValue
  rw [List.count_cons_self]
  rcases Nat.mod_two_eq_zero_or_one (run.count '-') with h | h
  · rw [h, show (run.count '-' + 1) % 2 = 1 by omega]
    rfl
  · rw [h, show (run.count '-' + 1) % 2 = 0 by omega]
    exact (Int.neg_neg _).symm

theorem signedValue_of_ne {c : Char} (hc : c ≠ '-') (run : Text) (n : Numeral) :
    signedValue (c :: run) n = signedValue run n := by
  unfold signedValue
  rw [List.count_cons_of_ne hc]

namespace Factor

/-- A factor as it is written. -/
def text (f : Factor) : Text := f.signs.flatMap Sign.text ++ f.quantity.text

def names (f : Factor) : List String := f.quantity.names

/-- The number that a factor stands for. -/
def value (v : String → Int64) (f : Factor) : Int := f.signs.foldr Sign.apply (f.quantity.value v)

variable (v : String → Int64) (f : Factor)

/-- The signs before the digits that are written for a factor. -/
def run : Text := f.signs.map (·.operator.char) ++ if (f.quantity.figure v).negative then ['-'] else []

/-- The digits that are written for a factor. -/
def numeral : Numeral := (f.quantity.figure v).numeral

theorem isSum_run : ∀ c ∈ f.run v, isSum c = true := by
  intro c hc
  rcases List.mem_append.mp hc with hc | hc
  · obtain ⟨s, -, rfl⟩ := List.mem_map.mp hc
    unfold Sign.operator
    split <;> rfl
  · split at hc
    · rw [List.mem_singleton.mp hc]
      rfl
    · cases hc

/-- A factor at the start of a calculation, as its signs and digits. -/
def signed : Signed where
  position := .start
  run := f.run v
  admitted := f.isSum_run v
  numeral := f.numeral v

/-- **The signs and the digits make the value.** -/
theorem signedValue_run : signedValue (f.run v) (f.numeral v) = f.value v := by
  obtain ⟨signs, q⟩ := f
  unfold value run numeral
  dsimp only
  induction signs with
  | nil =>
    rw [List.foldr_nil, ← q.value_figure v]
    obtain ⟨negative, n⟩ := q.figure v
    cases negative <;> rfl
  | cons s signs ih =>
    obtain ⟨negative, gap⟩ := s
    rw [List.foldr_cons, List.map_cons, List.cons_append, ← ih]
    cases negative with
    | false => exact signedValue_of_ne (show '+' ≠ '-' by decide) _ _
    | true => exact signedValue_minus _ _

variable {v f} {lookup : String → Option Value} {r : Text}

theorem operands_text (hv : ∀ x ∈ f.names, lookup x = some (.int (v x))) (hr : ∀ d ∈ r.head?, Text.isWord d = false) :
    operands lookup (f.text ++ r) = f.run v ++ ((f.numeral v).digits ++ operands lookup r) := by
  obtain ⟨signs, q⟩ := f
  unfold text run numeral
  dsimp only
  induction signs with
  | nil =>
    show operands lookup (q.text ++ r) = _
    rw [Quantity.operands_text hv hr]
    obtain ⟨negative, n⟩ := q.figure v
    cases negative <;> rfl
  | cons s signs ih =>
    have hsplit : ((s :: signs).flatMap Sign.text ++ q.text) ++ r =
        s.operator.char :: (s.gap.1 ++ ((signs.flatMap Sign.text ++ q.text) ++ r)) := by
      simp [Sign.text]
    rw [hsplit, operands_char, operands_blanks, ih hv]
    rfl

end Factor

/-! ### Calculations -/

/-- An operator with the factor behind it, and with blanks on its sides. -/
structure Member where
  before : Blanks
  operator : Operator
  after : Blanks
  factor : Factor

namespace Member

/-- A member as it is written. -/
def text (k : Member) : Text := k.before.1 ++ k.operator.char :: (k.after.1 ++ k.factor.text)

/-- The operator and the number behind it. -/
def value (v : String → Int64) (k : Member) : Operator × Int := (k.operator, k.factor.value v)

/-- Where the signs of a member stand. -/
def position (k : Member) : Position := if k.operator = .times then .product else .sum

/-- A member as the signs and the digits that are written for it. -/
def signed (v : String → Int64) (k : Member) : Signed where
  position := k.position
  run := k.operator.char :: k.factor.run v
  admitted := by
    obtain ⟨before, s, after, f⟩ := k
    have hrun := f.isSum_run v
    cases s with
    | plus | minus => exact ⟨List.cons_ne_nil _ _, List.forall_mem_cons.mpr ⟨rfl, hrun⟩⟩
    | times => exact ⟨_, rfl, hrun⟩
  numeral := k.factor.numeral v

theorem position_ne (k : Member) : k.position ≠ .start := by
  unfold position
  split <;> decide

/-- **The step of a member** in the row of figures is the operator with the number, but for signs that were moved from
one to the other. -/
theorem asSum_signed (v : String → Int64) (k : Member) :
    asSum ((k.signed v).step.1, (k.signed v).step.2.value) = asSum (k.value v) := by
  obtain ⟨before, s, after, f⟩ := k
  have hvalue : signedValue (f.run v) (f.numeral v) = f.value v := f.signedValue_run v
  have hplain : ∀ c, c ≠ '-' → signedValue (c :: f.run v) (f.numeral v) = f.value v := fun c hc => by
    rw [signedValue_of_ne hc, hvalue]
  cases s with
  | plus =>
    rw [Signed.asSum_step rfl]
    exact congrArg (Prod.mk Operator.plus) (hplain '+' (by decide))
  | minus =>
    rw [Signed.asSum_step rfl]
    exact congrArg (Prod.mk Operator.plus) ((signedValue_minus _ _).trans (congrArg Neg.neg hvalue))
  | times =>
    rw [Signed.step_of_product rfl]
    exact congrArg (Prod.mk Operator.times) (hplain '*' (by decide))

/-- No word goes on with a member. -/
theorem head?_text (k : Member) (r : Text) : ∀ d ∈ (k.text ++ r).head?, Text.isWord d = false := by
  unfold text
  rw [List.append_assoc]
  refine Text.forall_head?_append (fun c hc => Text.isWord_of_isBlank (k.before.2 c hc)) ?_
  intro d hd
  obtain rfl : k.operator.char = d := Option.some.inj hd
  cases k.operator <;> decide

end Member

/-- Two factors or more with operators between them. -/
structure Calculation where
  first : Factor
  members : List Member
  ne_nil : members ≠ []

namespace Calculation

/-- A calculation as it is written. -/
def text (e : Calculation) : Text := e.first.text ++ e.members.flatMap Member.text

/-- The names of the variables in a calculation. -/
def names (e : Calculation) : List String := e.first.names ++ e.members.flatMap fun k => k.factor.names

/-- What a calculation is worth: products before sums, and each from left to right. -/
def value (v : String → Int64) (e : Calculation) : Int := total (e.first.value v) (e.members.map (Member.value v))

/-- All factors, all partial products and all partial sums can be held. -/
def Fits (v : String → Int64) (e : Calculation) : Prop := AllFit (e.first.value v) (e.members.map (Member.value v))

instance (v : String → Int64) (e : Calculation) : Decidable (e.Fits v) := inferInstanceAs (Decidable (AllFit _ _))

variable {v : String → Int64} {lookup : String → Option Value} {e : Calculation}

theorem operands_members (ks : List Member) (hv : ∀ k ∈ ks, ∀ x ∈ k.factor.names, lookup x = some (.int (v x))) :
    (∀ d ∈ (ks.flatMap Member.text).head?, Text.isWord d = false) ∧
      operands lookup (ks.flatMap Member.text) = texts (ks.map (Member.signed v)) := by
  induction ks with
  | nil => exact ⟨fun d hd => (by cases hd), rfl⟩
  | cons k ks ih =>
    obtain ⟨hhead, hrest⟩ := ih fun k' hk => hv k' (List.mem_cons_of_mem k hk)
    refine ⟨k.head?_text _, ?_⟩
    have hsplit : (k :: ks).flatMap Member.text =
        k.before.1 ++ k.operator.char :: (k.after.1 ++ (k.factor.text ++ ks.flatMap Member.text)) := by
      simp [Member.text]
    rw [hsplit, operands_blanks, operands_char, operands_blanks, Factor.operands_text (hv k List.mem_cons_self) hhead,
      hrest]
    simp [texts, Signed.text, Member.signed]

/-- **Without names and blanks**, a calculation is a text of signed numerals. -/
theorem operands_text (hv : ∀ x ∈ e.names, lookup x = some (.int (v x))) :
    operands lookup e.text = texts (e.first.signed v :: e.members.map (Member.signed v)) := by
  obtain ⟨hhead, hmembers⟩ := operands_members e.members fun k hk x hx =>
    hv x (List.mem_append_right _ (List.mem_flatMap.mpr ⟨k, hk, hx⟩))
  unfold text
  rw [Factor.operands_text (fun x hx => hv x (List.mem_append_left _ hx)) hhead, hmembers]
  simp [texts, Signed.text, Factor.signed]

/-- No letter, underscore or quotation mark is left. -/
theorem isUnresolved_texts (es : List Signed) : (texts es).any isUnresolved = false := by
  rw [List.any_eq_false]
  intro c hc
  obtain ⟨e, -, hc⟩ := List.mem_flatMap.mp hc
  rcases List.mem_append.mp hc with hc | hc
  · have hchar : c = '*' ∨ isSum c = true := by
      obtain ⟨p, run, hrun, n⟩ := e
      cases p with
      | start => exact .inr (hrun c hc)
      | sum => exact .inr (hrun.2 c hc)
      | product =>
        obtain ⟨signs, rfl, hsigns⟩ := hrun
        rcases List.mem_cons.mp hc with rfl | hc
        · exact .inl rfl
        · exact .inr (hsigns c hc)
    have hsign : c = '*' ∨ c = '+' ∨ c = '-' := by simpa [isSum] using hchar
    rcases hsign with rfl | rfl | rfl <;> decide
  · have hdigit := e.numeral.isDigit c hc
    have hquote : c ≠ '"' := by
      intro heq
      rw [heq] at hdigit
      cases hdigit
    simp [isUnresolved, Text.isNameStart_of_isDigit hdigit, hquote]

/-- **A calculation is folded to its worth.** -/
theorem fold_text (hv : ∀ x ∈ e.names, lookup x = some (.int (v x))) (h : e.Fits v) :
    ∃ n : Int64, fold lookup e.text = .int n ∧ n.toInt = e.value v := by
  have hpositions : ∀ d ∈ e.members.map (Member.signed v), d.position ≠ .start := by
    intro d hd
    obtain ⟨k, -, rfl⟩ := List.mem_map.mp hd
    exact k.position_ne
  have hrow := dropPlus_mergeSigns (show (e.first.signed v).position = .start from rfl) hpositions
  have hfirst : (e.first.signed v).figure.value = e.first.value v := e.first.signedValue_run v
  -- Some signs of numbers have become operators, and the other way round.
  have hsteps : (values ((e.members.map (Member.signed v)).map Signed.step)).map asSum =
      (e.members.map (Member.value v)).map asSum := by
    unfold values
    rw [List.map_map, List.map_map, List.map_map, List.map_map]
    exact List.map_congr_left fun k _ => k.asSum_signed v
  have hfit : AllFit (e.first.signed v).figure.value (values ((e.members.map (Member.signed v)).map Signed.step)) := by
    rw [← allFit_asSum, hsteps, allFit_asSum, hfirst]
    exact h
  obtain ⟨n, hn, hvalue⟩ := settled_reduce hfit
  refine ⟨n, ?_, ?_⟩
  · show (if (operands lookup e.text).any isUnresolved then _ else settled (compute (operands lookup e.text))) = _
    rw [operands_text hv, isUnresolved_texts, ← hn, ← hrow]
    rfl
  · rw [hvalue, ← total_asSum, hsteps, total_asSum, hfirst]
    rfl

end Calculation

/-! ### Calculations are read as such -/

/-- The characters of which calculations are made. -/
def isCalculating (c : Char) : Bool := Text.isBlank c || c == '+' || c == '-' || c == '*' || Text.isNamePart c

section

variable {c : Char} {a b t : Text}

theorem ne_of_isCalculating (h : isCalculating c = true) : c ≠ '"' ∧ c ≠ '(' ∧ c ≠ '.' := by
  refine ⟨?_, ?_, ?_⟩ <;>
  · intro heq
    rw [heq] at h
    revert h
    decide

/-- An operator is found behind the first character. -/
theorem hasOperator_append (s : Operator) (ha : a ≠ []) (h : ∀ c ∈ a, isCalculating c = true) :
    hasOperator (a ++ s.char :: b) = true := by
  have hrest : ∀ a : Text, (∀ c ∈ a, isCalculating c = true) → operatorIn false (a ++ s.char :: b) = true := by
    intro a ha
    induction a with
    | nil => cases s <;> rfl
    | cons c a ih =>
      have hquote := (ne_of_isCalculating (ha c List.mem_cons_self)).1
      simp [operatorIn, hquote, ih fun d hd => ha d (List.mem_cons_of_mem c hd)]
  obtain ⟨c, a, rfl⟩ := List.exists_cons_of_ne_nil ha
  have hquote : (c == '"') = false := beq_eq_false_iff_ne.mpr (ne_of_isCalculating (h c List.mem_cons_self)).1
  have hfound := hrest a fun d hd => h d (List.mem_cons_of_mem c hd)
  simp [hasOperator, hquote, hfound]

/-- A text with an operator behind its first character is no numeral. -/
theorem numeral?_append (s : Operator) (ha : a ≠ []) (h : ∀ c ∈ a ++ s.char :: b, isCalculating c = true) :
    Literal.numeral? (a ++ s.char :: b) = none := by
  -- The operator remains if a minus is taken off.
  have hmem : s.char ∈ Literal.withoutMinus (a ++ s.char :: b) ∧
      ∀ c ∈ Literal.withoutMinus (a ++ s.char :: b), isCalculating c = true := by
    obtain ⟨c, a, rfl⟩ := List.exists_cons_of_ne_nil ha
    unfold Literal.withoutMinus
    split
    · next u hu =>
      obtain rfl : a ++ s.char :: b = u := (List.cons.inj hu).2
      exact ⟨by simp, fun d hd => h d (List.mem_cons_of_mem c hd)⟩
    · exact ⟨by simp, h⟩
  have hdigit : Text.isDigit s.char = false := by cases s <;> decide
  have hwhole : Literal.isWholeNumeral (a ++ s.char :: b) = false := by
    have hall : (Literal.withoutMinus (a ++ s.char :: b)).all Text.isDigit = false :=
      List.all_eq_false.mpr ⟨s.char, hmem.1, by simp [hdigit]⟩
    simp [Literal.isWholeNumeral, Literal.isDigits, hall]
  have hdecimal : Literal.isDecimalNumeral (a ++ s.char :: b) = false := by
    unfold Literal.isDecimalNumeral
    dsimp only
    split
    · next fraction hfraction =>
      have hpoint : '.' ∈ Literal.withoutMinus (a ++ s.char :: b) :=
        (List.dropWhile_suffix Text.isDigit).subset (by rw [hfraction]; exact List.mem_cons_self)
      exact absurd rfl (ne_of_isCalculating (hmem.2 '.' hpoint)).2.2
    · exact Bool.and_false _
  simp [Literal.numeral?, hwhole, hdecimal]

/-- **A trimmed text with an operator in it** is read as arithmetic, if it has no quotation marks, parentheses and
points. -/
theorem read_append (s : Operator) (ha : a ≠ []) (h : ∀ c ∈ a ++ s.char :: b, isCalculating c = true)
    (htrim : Text.trim (a ++ s.char :: b) = a ++ s.char :: b) :
    Expression.read (a ++ s.char :: b) = .arithmetic (a ++ s.char :: b) := by
  have hquoted : Literal.quoted? (a ++ s.char :: b) = none := by
    unfold Literal.quoted?
    split
    · next rest hrest =>
      have hquote := h '"' (by rw [hrest]; exact List.mem_cons_self)
      exact absurd rfl (ne_of_isCalculating hquote).1
    · rfl
  have hcall : Literal.call? (a ++ s.char :: b) = none :=
    Literal.call?_eq_none fun hmem => (ne_of_isCalculating (h '(' hmem)).2.1 rfl
  have hliteral : Expression.literal? (a ++ s.char :: b) = none := by
    simp [Expression.literal?, numeral?_append s ha h, hquoted]
  rw [Expression.read_eq, htrim, hliteral, hcall]
  exact if_pos (hasOperator_append s ha fun c hc => h c (List.mem_append_left _ hc))

end

theorem isCalculating_of_isBlank {c : Char} (h : Text.isBlank c = true) : isCalculating c = true := by
  simp [isCalculating, h]

theorem isCalculating_char (s : Operator) : isCalculating s.char = true := by
  cases s <;> decide

namespace Factor

theorem isCalculating_text (f : Factor) : ∀ c ∈ f.text, isCalculating c = true := by
  intro c hc
  rcases List.mem_append.mp hc with hc | hc
  · obtain ⟨s, -, hc⟩ := List.mem_flatMap.mp hc
    rcases List.mem_cons.mp hc with rfl | hc
    · exact isCalculating_char _
    · exact isCalculating_of_isBlank (s.gap.2 c hc)
  · simp [isCalculating, f.quantity.isNamePart_text c hc]

/-- A factor has no blanks at its margins. -/
theorem tidy (f : Factor) : Condition.Tidy f.text := by
  have hquantity : Condition.Tidy f.quantity.text := by
    have hpart := f.quantity.isNamePart_text
    refine ⟨f.quantity.text_ne_nil, ?_, ?_, ?_⟩
    · exact fun c hc => Term.isBlank_of_start (.inr (hpart c (List.mem_of_mem_head? hc)))
    · exact fun c hc => Term.isBlank_of_start (.inr (hpart c (List.mem_of_getLast? hc)))
    · intro hlast
      exact absurd (hpart '?' (List.mem_of_getLast? hlast)) (by decide)
  obtain ⟨signs, q⟩ := f
  cases signs with
  | nil => exact hquantity
  | cons s signs =>
    have hsign : Condition.Tidy [s.operator.char] := by
      cases s.operator <;> refine ⟨by decide, ?_, ?_, by decide⟩ <;> rintro c ⟨⟩ <;> rfl
    have htidy := hsign.append hquantity (s.gap.1 ++ signs.flatMap Sign.text)
    simpa [text, Sign.text] using htidy

end Factor

namespace Member

theorem isCalculating_text (k : Member) : ∀ c ∈ k.text, isCalculating c = true := by
  intro c hc
  rcases List.mem_append.mp hc with hc | hc
  · exact isCalculating_of_isBlank (k.before.2 c hc)
  rcases List.mem_cons.mp hc with rfl | hc
  · exact isCalculating_char _
  rcases List.mem_append.mp hc with hc | hc
  · exact isCalculating_of_isBlank (k.after.2 c hc)
  · exact k.factor.isCalculating_text c hc

end Member

namespace Calculation

theorem isCalculating_text (e : Calculation) : ∀ c ∈ e.text, isCalculating c = true := by
  intro c hc
  rcases List.mem_append.mp hc with hc | hc
  · exact e.first.isCalculating_text c hc
  · obtain ⟨k, -, hc⟩ := List.mem_flatMap.mp hc
    exact k.isCalculating_text c hc

/-- A calculation begins and ends with factors. -/
theorem tidy (e : Calculation) : Condition.Tidy e.text := by
  obtain ⟨first, members, hne⟩ := e
  obtain ⟨front, k, rfl⟩ := (List.eq_nil_or_concat members).resolve_left hne
  have htidy := first.tidy.append k.factor.tidy
    (front.flatMap Member.text ++ (k.before.1 ++ k.operator.char :: k.after.1))
  simpa [text, Member.text] using htidy

/-- **A calculation is read as one.** -/
theorem read_text (e : Calculation) : Expression.read e.text = .arithmetic e.text := by
  have hplain := e.isCalculating_text
  have htrim := e.tidy.trim_eq
  obtain ⟨first, members, hne⟩ := e
  obtain ⟨k, members, rfl⟩ := List.exists_cons_of_ne_nil hne
  have hsplit : text ⟨first, k :: members, hne⟩ =
      (first.text ++ k.before.1) ++ k.operator.char :: (k.after.1 ++ k.factor.text ++ members.flatMap Member.text) := by
    simp [text, Member.text]
  rw [hsplit] at hplain htrim ⊢
  exact read_append k.operator (by simp [first.tidy.ne_nil]) hplain htrim

/-- **Calculations in whole numbers.**  Take any calculation: two factors or more with pluses, minuses and signs of
multiplication between them, each factor a whole numeral or a variable behind any number of signs, and blanks between
all of these.  Let the variables hold whole numbers, of either sign.  If the factors, the partial products and the
partial sums can all be held, the text is evaluated to the whole number that the calculation is worth, and nothing is
changed: signs bind more strongly than products, and products more strongly than sums. -/
theorem evaluate_text {σ : Type} (env : Environment σ) (s : σ) (v : String → Int64) (e : Calculation)
    (hv : ∀ x ∈ e.names, env.lookup s x = some (.int (v x))) (h : e.Fits v) :
    ∃ n : Int64, evaluate env e.text s = .done (.int n) s ∧ n.toInt = e.value v := by
  obtain ⟨n, hn, hvalue⟩ := fold_text hv h
  refine ⟨n, ?_, hvalue⟩
  unfold evaluate
  rw [e.read_text]
  show Outcome.done (fold (env.lookup s) e.text) s = _
  rw [hn]

/-- A calculation with a negative variable, with signs before numerals and variables, and with blanks between signs. -/
def mixed : Calculation :=
  let number (c : Char) (h : c.isDigit = true) : Quantity :=
    .numeral ⟨[c], by simp, by simpa using h⟩
  let x : Quantity := .named ['x'] rfl
  { first := ⟨[], number '8' rfl⟩
    members := [⟨Blanks.one, .minus, Blanks.one, ⟨[⟨true, Blanks.none⟩], x⟩⟩,
      ⟨Blanks.none, .times, Blanks.one, ⟨[⟨true, Blanks.one⟩, ⟨false, Blanks.none⟩], number '3' rfl⟩⟩,
      ⟨Blanks.one, .minus, Blanks.none, ⟨[], x⟩⟩]
    ne_nil := List.cons_ne_nil _ _ }

/-- With `-2` in the variable, it comes to sixteen. -/
theorem evaluate_text_mixed :
    let scope := ({} : Scope).set "x" (.int (-2))
    mixed.text = "8 - -x* - +3 -x".toList ∧ mixed.Fits (fun _ => -2) ∧
      ∃ n : Int64, evaluate Scope.environment mixed.text scope = .done (.int n) scope ∧ n.toInt = 16 := by
  have hv : ∀ x ∈ mixed.names, Scope.environment.lookup (({} : Scope).set "x" (.int (-2))) x = some (.int (-2)) := by
    decide
  have hfits : mixed.Fits (fun _ => -2) := by decide
  obtain ⟨n, hn, hvalue⟩ := evaluate_text Scope.environment _ (fun _ => -2) mixed hv hfits
  have hworth : mixed.value (fun _ => -2) = 16 := by decide
  exact ⟨by decide, hfits, n, hn, hvalue.trans hworth⟩

end Calculation

end Arithmetic

end Flowchart
