import Flowchart.Proofs.Arithmetic.Operations

/-!
# Numerals and the numbers they stand for

A numeral is digits, perhaps with a minus in front, and perhaps with a point and more digits behind.  It is recognised by
the digits of all scripts, and its number is read from those of ASCII.  For a numeral in ASCII the two go together: a
whole number that fits 64 bits is read as itself, and any other numeral as a float.  A whole numeral with a digit of
another script is recognised as well, and as no number can be read from it, it counts as infinity; a decimal one is no
numeral.

* `WrittenNumber` — numerals in ASCII, with their texts and values.
* `Literal.Foreign` — whole numerals with digits of other scripts.
* `Decimal.unsigned?_whole`, `Decimal.unsigned?_point` — digits in front of a rest that ends them, without a point and
  with one.  `Decimal.unsigned?_eq_none` and `Decimal.unsigned?_point_eq_none` follow for digits of other scripts.
* `WrittenNumber.numeral?_text`, `Literal.numeral?_foreign` — the values of both sorts of numerals.
* `Literal.cases_of_numeral?`, `Literal.numeral?_eq_some_iff` — whatever has a value is of one of the two sorts.
* **`Literal.numeral?_denotes`** — all texts that have a value as a numeral, with their values, and all texts that are
  taken as strings where an answer is expected.
* **`Literal.numeral?_arabicThree`** — a digit that counts as infinity.
-/

namespace Flowchart

/-! ### Numerals in ASCII -/

/-- A number as it is written: a whole numeral with or without a minus, and perhaps digits behind a point. -/
structure WrittenNumber where
  whole : Arithmetic.Figure
  fraction : Option Numeral

namespace WrittenNumber

/-- The digits behind the point. -/
def places (n : WrittenNumber) : Text :=
  match n.fraction with
  | none => []
  | some f => f.digits

/-- A number without its sign. -/
def magnitude (n : WrittenNumber) : Text :=
  match n.fraction with
  | none => n.whole.numeral.digits
  | some f => n.whole.numeral.digits ++ '.' :: f.digits

/-- The text of a number. -/
def text (n : WrittenNumber) : Text := Decimal.withSign n.whole.negative n.magnitude

/-- The float nearest to a number, whose digits make a whole number if the point is left out. -/
def float (n : WrittenNumber) : Float :=
  let size := Decimal.nearest (Decimal.ofDigits (n.whole.numeral.digits ++ n.places)) (-n.places.length)
  if n.whole.negative then size.neg else size

/-- The value of a number: a whole one that fits 64 bits stands for itself. -/
def value (n : WrittenNumber) : Value :=
  match n.fraction, int64Of? n.whole.value with
  | none, some k => .int k
  | _, _ => .float n.float

end WrittenNumber

/-! ### Digits of other scripts -/

/-- Digits of which some are not of ASCII, perhaps with a minus in front. -/
def Literal.Foreign (t : Text) : Prop :=
  ∃ negative digits, t = Decimal.withSign negative digits ∧ (∀ c ∈ digits, Text.isDigit c = true) ∧
    ∃ c ∈ digits, c.isDigit = false

namespace Text

variable {c : Char}

/-- A digit of any script is no other sign of a number. -/
theorem ne_of_isDigit (h : isDigit c = true) : c ≠ '-' ∧ c ≠ '+' ∧ c ≠ '.' ∧ c ≠ 'e' ∧ c ≠ 'E' ∧ c ≠ 'i' ∧ c ≠ 'n' := by
  refine ⟨?_, ?_, ?_, ?_, ?_, ?_, ?_⟩ <;> rintro rfl <;> exact absurd h (by decide)

/-- A digit is no letter. -/
theorem toLower_of_isDigit (h : isDigit c = true) : c.toLower = c := by
  refine dif_neg fun hupper => ?_
  have hstart : isNameStart c = true := by
    have hletter : c.isUpper = true := decide_eq_true hupper
    simp [isNameStart, Char.isAlpha, hletter]
  rw [isDigit_of_isNameStart hstart] at h
  cases h

/-- Digits of which some are not of ASCII: those of ASCII in front, and the first other one. -/
theorem exists_foreign {t : Text} (h : ∃ c ∈ t, c.isDigit = false) :
    ∃ ascii c rest, t = ascii ++ c :: rest ∧ (∀ d ∈ ascii, d.isDigit = true) ∧ c.isDigit = false := by
  obtain ⟨c, hc, hforeign⟩ := h
  have hsplit := List.takeWhile_append_dropWhile (p := Char.isDigit) (l := t)
  have hne : t.dropWhile Char.isDigit ≠ [] := fun hnil => by
    rw [List.dropWhile_eq_nil_iff.mp hnil c hc] at hforeign
    cases hforeign
  obtain ⟨d, rest, hrest⟩ := List.exists_cons_of_ne_nil hne
  refine ⟨t.takeWhile Char.isDigit, d, rest, ?_, fun e he => ?_, head_dropWhile Char.isDigit hrest⟩
  · rw [← hrest, hsplit]
  · exact List.mem_takeWhile_imp he

end Text

/-! ### Reading digits -/

namespace Decimal

variable {whole fraction rest t : Text} {c : Char}

/-- Digits, and behind them neither a digit nor a point. -/
theorem unsigned?_whole (hwhole : ∀ d ∈ whole, d.isDigit = true)
    (hrest : ∀ d ∈ rest.head?, d.isDigit = false ∧ d ≠ '.') :
    unsigned? (whole ++ rest) =
      if whole.isEmpty then none else (exponent? rest).map fun e => nearest (ofDigits whole) e := by
  obtain ⟨htake, hdrop⟩ := Text.split_run hwhole fun d hd => (hrest d hd).1
  unfold unsigned?
  rw [htake, hdrop]
  cases rest with
  | nil => simp
  | cons d rest => simp [(hrest d rfl).2]

/-- Digits, a point and digits, and behind them no digit. -/
theorem unsigned?_point (hne : whole ≠ []) (hwhole : ∀ d ∈ whole, d.isDigit = true)
    (hfraction : ∀ d ∈ fraction, d.isDigit = true) (hrest : ∀ d ∈ rest.head?, d.isDigit = false) :
    unsigned? (whole ++ '.' :: (fraction ++ rest)) =
      (exponent? rest).map fun e => nearest (ofDigits (whole ++ fraction)) (e - fraction.length) := by
  have hempty : whole.isEmpty = false := List.isEmpty_eq_false_iff.mpr hne
  have hpoint : ∀ d ∈ ('.' :: (fraction ++ rest)).head?, d.isDigit = false := by rintro _ ⟨⟩; rfl
  obtain ⟨htake, hdrop⟩ := Text.split_run hwhole hpoint
  obtain ⟨htake', hdrop'⟩ := Text.split_run hfraction hrest
  unfold unsigned?
  rw [htake, hdrop]
  simp [hempty, htake', hdrop']

/-- No exponent begins with a digit, of whatever script. -/
theorem exponent?_eq_none (hc : Text.isDigit c = true) (t : Text) : exponent? (c :: t) = none := by
  obtain ⟨-, -, -, hlower, hupper, -⟩ := Text.ne_of_isDigit hc
  simp [exponent?, hlower, hupper]

/-- Digits of which some are not of ASCII are no number, whatever follows them. -/
theorem unsigned?_eq_none (hdigits : ∀ d ∈ t, Text.isDigit d = true) (hforeign : ∃ d ∈ t, d.isDigit = false)
    (rest : Text) : unsigned? (t ++ rest) = none := by
  obtain ⟨ascii, c, behind, rfl, hascii, hc⟩ := Text.exists_foreign hforeign
  have hdigit : Text.isDigit c = true := hdigits c (List.mem_append_right _ List.mem_cons_self)
  have hends : ∀ d ∈ (c :: (behind ++ rest)).head?, d.isDigit = false ∧ d ≠ '.' := by
    rintro _ ⟨⟩
    exact ⟨hc, (Text.ne_of_isDigit hdigit).2.2.1⟩
  rw [List.append_assoc, List.cons_append, unsigned?_whole hascii hends, exponent?_eq_none hdigit]
  exact ite_self _

/-- Nor are such digits behind a point. -/
theorem unsigned?_point_eq_none (hne : whole ≠ []) (hwhole : ∀ d ∈ whole, d.isDigit = true)
    (hdigits : ∀ d ∈ t, Text.isDigit d = true) (hforeign : ∃ d ∈ t, d.isDigit = false) :
    unsigned? (whole ++ '.' :: t) = none := by
  obtain ⟨ascii, c, behind, rfl, hascii, hc⟩ := Text.exists_foreign hforeign
  have hdigit : Text.isDigit c = true := hdigits c (List.mem_append_right _ List.mem_cons_self)
  have hends : ∀ d ∈ (c :: behind).head?, d.isDigit = false := by rintro _ ⟨⟩; exact hc
  rw [unsigned?_point hne hwhole hascii hends, exponent?_eq_none hdigit]
  rfl

/-- What begins with a digit is read without regard to words, behind a minus or without one. -/
theorem read?_withSign (hc : Text.isDigit c = true) (negative : Bool) (t : Text) :
    read? (withSign negative (c :: t)) = (unsigned? (c :: t)).map fun x => if negative then x.neg else x := by
  obtain ⟨hminus, hplus, -, -, -, hi, hn⟩ := Text.ne_of_isDigit hc
  have hmagnitude : magnitude? (c :: t) = unsigned? (c :: t) := by
    have hhead : (c :: t).map Char.toLower = c :: t.map Char.toLower := by
      rw [List.map_cons, Text.toLower_of_isDigit hc]
    unfold magnitude?
    rw [hhead]
    simp [hi, hn]
  cases negative with
  | true =>
    show (magnitude? (c :: t)).map Float.neg = _
    rw [hmagnitude]
    rfl
  | false =>
    have hplain : read? (c :: t) = magnitude? (c :: t) := by
      unfold read?
      split
      · next heq => exact absurd (List.cons.inj heq).1 hminus
      · next heq => exact absurd (List.cons.inj heq).1 hplus
      · rfl
    show read? (c :: t) = _
    rw [hplain, hmagnitude]
    exact Option.map_id'.symm

end Decimal

/-! ### Numerals with a value -/

namespace Literal

variable {t : Text}

/-- A text is what it is without its minus, with a minus or without. -/
theorem exists_withSign (t : Text) : ∃ negative, t = Decimal.withSign negative (withoutMinus t) := by
  unfold withoutMinus
  split
  · exact ⟨true, rfl⟩
  · exact ⟨false, rfl⟩

theorem withoutMinus_withSign (h : ∀ c ∈ t.head?, c ≠ '-') (negative : Bool) :
    withoutMinus (Decimal.withSign negative t) = t := by
  cases negative with
  | true => rfl
  | false =>
    show withoutMinus t = t
    unfold withoutMinus
    split
    · exact absurd rfl (h '-' rfl)
    · rfl

theorem isDigits_iff : isDigits t = true ↔ t ≠ [] ∧ ∀ c ∈ t, Text.isDigit c = true := by
  simp [isDigits]

end Literal

namespace WrittenNumber

/-- A number begins with a digit, but for its sign. -/
theorem exists_magnitude (n : WrittenNumber) : ∃ c t, n.magnitude = c :: t ∧ c.isDigit = true := by
  obtain ⟨whole, fraction⟩ := n
  obtain ⟨c, u, hu⟩ := List.exists_cons_of_ne_nil whole.numeral.ne_nil
  have hc : c.isDigit = true := whole.numeral.isDigit c (by rw [hu]; exact List.mem_cons_self)
  cases fraction with
  | none => exact ⟨c, u, hu, hc⟩
  | some f => exact ⟨c, u ++ '.' :: f.digits, congrArg (· ++ '.' :: f.digits) hu, hc⟩

theorem unsigned?_magnitude (n : WrittenNumber) : Decimal.unsigned? n.magnitude =
    some (Decimal.nearest (Decimal.ofDigits (n.whole.numeral.digits ++ n.places)) (-n.places.length)) := by
  obtain ⟨whole, fraction⟩ := n
  have hnone : ∀ d ∈ ([] : Text).head?, d.isDigit = false ∧ d ≠ '.' := fun d hd => by cases hd
  cases fraction with
  | none =>
    show Decimal.unsigned? whole.numeral.digits = _
    have hempty : whole.numeral.digits.isEmpty = false := List.isEmpty_eq_false_iff.mpr whole.numeral.ne_nil
    have hread := Decimal.unsigned?_whole whole.numeral.isDigit hnone
    rw [List.append_nil, hempty] at hread
    rw [hread]
    simp [places, Decimal.exponent?]
  | some f =>
    show Decimal.unsigned? (whole.numeral.digits ++ '.' :: f.digits) = _
    rw [← List.append_nil f.digits, Decimal.unsigned?_point whole.numeral.ne_nil whole.numeral.isDigit f.isDigit
      fun d hd => (hnone d hd).1]
    simp [places, Decimal.exponent?]

/-- **A number in ASCII is read as the float nearest to it.** -/
theorem read?_text (n : WrittenNumber) : Decimal.read? n.text = some n.float := by
  obtain ⟨c, t, hmagnitude, hc⟩ := n.exists_magnitude
  unfold text
  rw [hmagnitude, Decimal.read?_withSign (Text.isDigit_of_ascii hc), ← hmagnitude, n.unsigned?_magnitude]
  rfl

theorem withoutMinus_text (n : WrittenNumber) : Literal.withoutMinus n.text = n.magnitude := by
  obtain ⟨c, t, hmagnitude, hc⟩ := n.exists_magnitude
  refine Literal.withoutMinus_withSign (fun d hd => ?_) _
  rw [hmagnitude] at hd
  cases hd
  exact (Text.ne_of_isDigit (Text.isDigit_of_ascii hc)).1

/-- The whole number that a numeral without a point stands for is read from its text. -/
theorem int64?_text {n : WrittenNumber} (h : n.fraction = none) : Literal.int64? n.text = int64Of? n.whole.value := by
  obtain ⟨⟨negative, whole⟩, fraction⟩ := n
  obtain rfl : fraction = none := h
  have htext : text ⟨⟨negative, whole⟩, none⟩ = (Term.numeral negative whole).text := by cases negative <;> rfl
  unfold Literal.int64?
  rw [htext, Term.integer?_numeral]
  rfl

theorem isWholeNumeral_text (n : WrittenNumber) : Literal.isWholeNumeral n.text = n.fraction.isNone := by
  unfold Literal.isWholeNumeral
  rw [n.withoutMinus_text]
  obtain ⟨whole, fraction⟩ := n
  cases fraction with
  | none =>
    exact Literal.isDigits_iff.mpr ⟨whole.numeral.ne_nil, fun c hc => Text.isDigit_of_ascii (whole.numeral.isDigit c hc)⟩
  | some f =>
    refine Bool.eq_false_iff.mpr fun hdigits => ?_
    have hpoint := (Literal.isDigits_iff.mp hdigits).2 '.' (List.mem_append_right _ List.mem_cons_self)
    exact absurd hpoint (by decide)

theorem isDecimalNumeral_text {n : WrittenNumber} {f : Numeral} (h : n.fraction = some f) :
    Literal.isDecimalNumeral n.text = true := by
  obtain ⟨whole, fraction⟩ := n
  obtain rfl : fraction = some f := h
  have hwhole : ∀ c ∈ whole.numeral.digits, Text.isDigit c = true :=
    fun c hc => Text.isDigit_of_ascii (whole.numeral.isDigit c hc)
  have hfraction : ∀ c ∈ f.digits, Text.isDigit c = true := fun c hc => Text.isDigit_of_ascii (f.isDigit c hc)
  have hpoint : ∀ c ∈ ('.' :: f.digits).head?, Text.isDigit c = false := by rintro _ ⟨⟩; decide
  obtain ⟨htake, hdrop⟩ := Text.split_run hwhole hpoint
  unfold Literal.isDecimalNumeral
  rw [withoutMinus_text]
  dsimp only [magnitude]
  rw [htake, hdrop, Literal.isDigits_iff.mpr ⟨whole.numeral.ne_nil, hwhole⟩]
  exact Literal.isDigits_iff.mpr ⟨f.ne_nil, hfraction⟩

/-- **A number in ASCII has its value.** -/
theorem numeral?_text (n : WrittenNumber) : Literal.numeral? n.text = some n.value := by
  unfold Literal.numeral? value
  rw [n.isWholeNumeral_text]
  cases hfraction : n.fraction with
  | none =>
    show some (Literal.wholeValue n.text) = _
    unfold Literal.wholeValue
    rw [int64?_text hfraction, n.read?_text]
    cases int64Of? n.whole.value <;> rfl
  | some f =>
    rw [isDecimalNumeral_text hfraction, n.read?_text]
    rfl

/-- **A number is read as a whole one** exactly if it is written without a point and fits 64 bits. -/
theorem value_eq_int_iff {n : WrittenNumber} {k : Int64} :
    n.value = .int k ↔ n.fraction = none ∧ k.toInt = n.whole.value := by
  unfold value
  cases n.fraction with
  | none =>
    cases hfits : int64Of? n.whole.value with
    | none =>
      refine iff_of_false (by simp) fun h => ?_
      rw [← h.2, int64Of?_toInt] at hfits
      cases hfits
    | some m =>
      have hm := toInt_of_int64Of hfits
      constructor
      · intro h
        cases h
        exact ⟨rfl, hm⟩
      · rintro ⟨-, hk⟩
        rw [Int64.toInt_inj.mp (hm.trans hk.symm)]
  | some f => simp

/-- No number is a string. -/
theorem value_ne_text (n : WrittenNumber) (s : String) : n.value ≠ .text s := by
  unfold value
  split <;> simp

end WrittenNumber

namespace Literal

variable {t : Text} {v : Value}

/-- **A whole numeral with a digit of another script counts as infinity.** -/
theorem numeral?_foreign (h : Foreign t) : numeral? t = some (.float (1.0 / 0.0)) := by
  obtain ⟨negative, digits, rfl, hdigits, hforeign⟩ := h
  obtain ⟨c, hc, hcforeign⟩ := hforeign
  have hne : digits ≠ [] := List.ne_nil_of_mem hc
  have hminus : ∀ d ∈ digits.head?, d ≠ '-' := fun d hd => (Text.ne_of_isDigit (hdigits d (List.mem_of_head? hd))).1
  have hwhole : isWholeNumeral (Decimal.withSign negative digits) = true := by
    unfold isWholeNumeral
    rw [withoutMinus_withSign hminus]
    exact isDigits_iff.mpr ⟨hne, hdigits⟩
  have hnatural : Decimal.natural? digits = none := by
    refine if_neg fun hall => ?_
    have hascii := List.all_eq_true.mp (Bool.and_eq_true_iff.mp hall).2 c hc
    rw [hcforeign] at hascii
    cases hascii
  have hinteger : Decimal.integer? (Decimal.withSign negative digits) = none := by
    cases negative with
    | true =>
      show Decimal.integer? ('-' :: digits) = none
      simp only [Decimal.integer?, hnatural]
      rfl
    | false =>
      show Decimal.integer? digits = none
      unfold Decimal.integer?
      split
      · exact absurd rfl (hminus '-' rfl)
      · rw [hnatural]
        rfl
  have hread : Decimal.read? (Decimal.withSign negative digits) = none := by
    obtain ⟨d, u, rfl⟩ := List.exists_cons_of_ne_nil hne
    have hunsigned := Decimal.unsigned?_eq_none hdigits ⟨c, hc, hcforeign⟩ []
    rw [List.append_nil] at hunsigned
    rw [Decimal.read?_withSign (hdigits d List.mem_cons_self), hunsigned]
    rfl
  unfold numeral? wholeValue int64?
  rw [if_pos hwhole, hinteger, hread]
  rfl

/-- The parts of a decimal numeral. -/
theorem exists_of_isDecimalNumeral (h : isDecimalNumeral t = true) :
    ∃ whole fraction, withoutMinus t = whole ++ '.' :: fraction ∧ isDigits whole = true ∧ isDigits fraction = true := by
  obtain ⟨hwhole, hrest⟩ := Bool.and_eq_true_iff.mp h
  have hsplit := List.takeWhile_append_dropWhile (p := Text.isDigit) (l := withoutMinus t)
  split at hrest
  · next fraction hpoint => exact ⟨_, fraction, by rw [← hpoint, hsplit], hwhole, hrest⟩
  · cases hrest

/-- A decimal numeral has a number only if all its digits are of ASCII. -/
theorem exists_of_read? {whole fraction : Text} {negative : Bool} {x : Float} (hwhole : isDigits whole = true)
    (hfraction : isDigits fraction = true)
    (h : Decimal.read? (Decimal.withSign negative (whole ++ '.' :: fraction)) = some x) :
    ∃ n : WrittenNumber, n.text = Decimal.withSign negative (whole ++ '.' :: fraction) := by
  obtain ⟨hne, hdigits⟩ := isDigits_iff.mp hwhole
  obtain ⟨hne', hdigits'⟩ := isDigits_iff.mp hfraction
  obtain ⟨y, hread⟩ : ∃ y, Decimal.unsigned? (whole ++ '.' :: fraction) = some y := by
    obtain ⟨c, u, rfl⟩ := List.exists_cons_of_ne_nil hne
    rw [List.cons_append, Decimal.read?_withSign (hdigits c List.mem_cons_self)] at h
    obtain ⟨y, hy, -⟩ := Option.map_eq_some_iff.mp h
    exact ⟨y, hy⟩
  have hascii : ∀ c ∈ whole, c.isDigit = true := by
    by_contra hforeign
    simp only [not_forall, Bool.not_eq_true, exists_prop] at hforeign
    rw [Decimal.unsigned?_eq_none hdigits hforeign] at hread
    cases hread
  have hascii' : ∀ c ∈ fraction, c.isDigit = true := by
    by_contra hforeign
    simp only [not_forall, Bool.not_eq_true, exists_prop] at hforeign
    rw [Decimal.unsigned?_point_eq_none hne hascii hdigits' hforeign] at hread
    cases hread
  exact ⟨⟨⟨negative, ⟨whole, hne, hascii⟩⟩, some ⟨fraction, hne', hascii'⟩⟩, rfl⟩

/-- **Whatever has a value is a number in ASCII, or a whole numeral with a digit of another script.** -/
theorem cases_of_numeral? (h : numeral? t = some v) : (∃ n : WrittenNumber, n.text = t) ∨ Foreign t := by
  obtain ⟨negative, ht⟩ := exists_withSign t
  unfold numeral? at h
  split at h
  · next hwhole =>
    obtain ⟨hne, hdigits⟩ := isDigits_iff.mp hwhole
    by_cases hascii : ∀ c ∈ withoutMinus t, c.isDigit = true
    · exact .inl ⟨⟨⟨negative, ⟨withoutMinus t, hne, hascii⟩⟩, none⟩, ht.symm⟩
    · simp only [not_forall, Bool.not_eq_true] at hascii
      obtain ⟨c, hc, hforeign⟩ := hascii
      exact .inr ⟨negative, withoutMinus t, ht, hdigits, c, hc, hforeign⟩
  · split at h
    · next hdecimal =>
      obtain ⟨whole, fraction, hparts, hwhole, hfraction⟩ := exists_of_isDecimalNumeral hdecimal
      obtain ⟨x, hx, -⟩ := Option.map_eq_some_iff.mp h
      rw [hparts] at ht
      rw [ht] at hx ⊢
      exact .inl (exists_of_read? hwhole hfraction hx)
    · cases h

/-- **All numerals, with their values.** -/
theorem numeral?_eq_some_iff : numeral? t = some v ↔
    (∃ n : WrittenNumber, n.text = t ∧ n.value = v) ∨ (Foreign t ∧ v = .float (1.0 / 0.0)) := by
  constructor
  · intro h
    rcases cases_of_numeral? h with ⟨n, rfl⟩ | hforeign
    · exact .inl ⟨n, rfl, Option.some.inj (n.numeral?_text.symm.trans h)⟩
    · exact .inr ⟨hforeign, Option.some.inj (h.symm.trans (numeral?_foreign hforeign))⟩
  · rintro (⟨n, rfl, rfl⟩ | ⟨hforeign, rfl⟩)
    · exact n.numeral?_text
    · exact numeral?_foreign hforeign

/-- No numeral is a string. -/
theorem numeral?_ne_text (h : numeral? t = some v) (s : String) : v ≠ .text s := by
  rcases numeral?_eq_some_iff.mp h with ⟨n, -, rfl⟩ | ⟨-, rfl⟩
  · exact n.value_ne_text s
  · exact fun heq => by cases heq

/-- **Numerals and their values.**  A text has a value as a numeral exactly if it is a number in ASCII, whose value it
then has, or a whole numeral with a digit of another script, which counts as infinity.  It is read as a whole number
exactly if it is a number in ASCII without a point that denotes it, so whenever the number that it denotes fits 64 bits.
As an answer it is taken for a string, without its margins, exactly if what is left is a numeral of neither sort. -/
theorem numeral?_denotes (t : Text) :
    (∀ v, numeral? t = some v ↔
      (∃ n : WrittenNumber, n.text = t ∧ n.value = v) ∨ (Foreign t ∧ v = .float (1.0 / 0.0))) ∧
    (∀ k : Int64, numeral? t = some (.int k) ↔
      ∃ n : WrittenNumber, n.text = t ∧ n.fraction = none ∧ k.toInt = n.whole.value) ∧
    (answer t = .text (String.ofList (Text.trim t)) ↔
      (∀ n : WrittenNumber, n.text ≠ Text.trim t) ∧ ¬Foreign (Text.trim t)) := by
  refine ⟨fun v => numeral?_eq_some_iff, fun k => ?_, ?_⟩
  · rw [numeral?_eq_some_iff]
    constructor
    · rintro (⟨n, hn, hvalue⟩ | ⟨-, hinfinite⟩)
      · exact ⟨n, hn, WrittenNumber.value_eq_int_iff.mp hvalue⟩
      · cases hinfinite
    · rintro ⟨n, hn, hwhole⟩
      exact .inl ⟨n, hn, WrittenNumber.value_eq_int_iff.mpr hwhole⟩
  · constructor
    · intro h
      -- A value would not be a string.
      have hnone : numeral? (Text.trim t) = none := by
        refine Option.eq_none_iff_forall_ne_some.mpr fun v hv => numeral?_ne_text hv _ (Eq.trans ?_ h)
        show v = (numeral? (Text.trim t)).getD _
        rw [hv]
        rfl
      refine ⟨fun n hn => ?_, fun hforeign => ?_⟩
      · rw [← hn, n.numeral?_text] at hnone
        cases hnone
      · rw [numeral?_foreign hforeign] at hnone
        cases hnone
    · rintro ⟨hascii, hforeign⟩
      have hnone : numeral? (Text.trim t) = none := by
        refine Option.eq_none_iff_forall_ne_some.mpr fun v hv => ?_
        rcases cases_of_numeral? hv with ⟨n, hn⟩ | hdigits
        · exact hascii n hn
        · exact hforeign hdigits
      show (numeral? (Text.trim t)).getD _ = _
      rw [hnone]
      rfl

/-- The Arabic digit three has a value, though it is no number in ASCII, and as an answer it is no string. -/
theorem numeral?_arabicThree : numeral? ['٣'] = some (.float (1.0 / 0.0)) ∧
    (∀ n : WrittenNumber, n.text ≠ ['٣']) ∧ answer ['٣'] ≠ .text "٣" := by
  refine ⟨rfl, fun n hn => ?_, by decide⟩
  obtain ⟨c, t, hmagnitude, hc⟩ := n.exists_magnitude
  have hthree : n.magnitude = ['٣'] := by
    rw [← n.withoutMinus_text, hn]
    rfl
  rw [hmagnitude] at hthree
  cases hthree
  cases hc

end Literal

end Flowchart
