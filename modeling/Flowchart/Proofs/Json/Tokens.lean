import Flowchart.Json.Printer
import Flowchart.Json.Reader
import Mathlib.Data.List.TakeWhile

/-!
# Strings and numbers are read as they were written

The smallest parts of a document, in front of any text `t` that may follow them.

* `exists_piece` — a character is written as one piece, which stands for this character whatever comes next.
* `string?_escape`, `memberName?_jsonStringText` — so a string is read back, and the text after it is left alone.
* `EndsNumber` — the texts in front of which a number is over.  Every part of the grammar of numbers reads the
  same in front of such a text, so `number?_append` goes along the grammar, one lemma for each part.
* `number?_toDigits`, `natural?_ofNat` — the digits of a natural number are a number of the grammar, and they are
  read as that number.
-/

namespace Flowchart.Json

/-! ### Blanks -/

theorem skip_of_not_space {c : Char} (h : isSpace c = false) (t : Text) : skip (c :: t) = c :: t := by
  simp [skip, h]

theorem skip_newLine (level : Nat) (t : Text) : skip (newLine level ++ t) = skip t := by
  have hblanks : ∀ n, skip (List.replicate n ' ' ++ t) = skip t := by
    intro n
    induction n with
    | zero => rfl
    | succ n ih => exact ih
  exact hblanks (2 * level)

/-! ### Strings -/

theorem stringBody?_short {e c : Char} (h : shortEscape? e = some c) (he : e ≠ 'u') (t : Text) :
    stringBody? ('\\' :: e :: t) = (stringBody? t).map fun q => (.plain c :: q.1, q.2) := by
  rw [stringBody?]
  · rw [h]
    cases stringBody? t <;> rfl
  · rintro a b c d t rfl
    exact absurd rfl he

theorem stringBody?_unit {a b c d : Char} {n : Nat} (h : hexUnit? a b c d = some n) (t : Text) :
    stringBody? ('\\' :: 'u' :: a :: b :: c :: d :: t) = (stringBody? t).map fun q => (.unit n :: q.1, q.2) := by
  rw [stringBody?, h]
  cases stringBody? t <;> rfl

theorem stringBody?_plain {c : Char} (hcontrol : ¬ c.toNat < 32) (hquote : c ≠ '"') (hslash : c ≠ '\\') (t : Text) :
    stringBody? (c :: t) = (stringBody? t).map fun q => (.plain c :: q.1, q.2) := by
  rw [stringBody?]
  · rw [if_neg (by simp [hcontrol, hslash])]
    cases stringBody? t <;> rfl
  · exact hquote
  · rintro a b c d t rfl
    exact absurd rfl hslash
  · rintro e t rfl
    exact absurd rfl hslash

/-- A unit that is no half of a pair is a character of its own. -/
theorem joinPairs_unit {n : Nat} (hhigh : isHigh n = false) (hlow : isLow n = false) (ps : List Piece) :
    joinPairs (.unit n :: ps) = (joinPairs ps).map (Char.ofNat n :: ·) := by
  cases ps with
  | nil => simp [joinPairs, hhigh, hlow]
  | cons p ps => cases p <;> simp [joinPairs, hhigh, hlow]

/-- A control character is written by four digits, which are read as its number. -/
theorem hexUnit?_fourHex :
    ∀ n < 32, fourHex n = ['0', '0', (n / 16).digitChar, (n % 16).digitChar] ∧
      hexUnit? '0' '0' (n / 16).digitChar (n % 16).digitChar = some n := by
  decide

/-- A character is written as one piece of a string, and this piece stands for it. -/
theorem exists_piece (c : Char) :
    ∃ p, (∀ t, stringBody? (escape c ++ t) = (stringBody? t).map fun q => (p :: q.1, q.2)) ∧
      ∀ ps, joinPairs (p :: ps) = (joinPairs ps).map (c :: ·) := by
  -- the seven escapes that have a letter of their own
  have hshort {e c : Char} (h : shortEscape? e = some c) (he : e ≠ 'u') :
      ∃ p, (∀ t, stringBody? (['\\', e] ++ t) = (stringBody? t).map fun q => (p :: q.1, q.2)) ∧
        ∀ ps, joinPairs (p :: ps) = (joinPairs ps).map (c :: ·) :=
    ⟨.plain c, stringBody?_short h he, fun _ => by simp [joinPairs]⟩
  unfold escape
  split
  · exact hshort rfl (by decide)
  · exact hshort rfl (by decide)
  · exact hshort rfl (by decide)
  · exact hshort rfl (by decide)
  · exact hshort rfl (by decide)
  · exact hshort rfl (by decide)
  · exact hshort rfl (by decide)
  · next hquote hslash _ _ _ _ _ =>
    -- the controls without a letter of their own are written by their numbers, all else as itself
    split
    · next hcontrol =>
      obtain ⟨hdigits, hunit⟩ := hexUnit?_fourHex c.toNat hcontrol
      refine ⟨.unit c.toNat, fun t => ?_, fun ps => ?_⟩
      · rw [hdigits]
        exact stringBody?_unit hunit t
      · have hhigh : isHigh c.toNat = false := by simp [isHigh]; omega
        have hlow : isLow c.toNat = false := by simp [isLow]; omega
        rw [joinPairs_unit hhigh hlow, Char.ofNat_toNat]
    · next hcontrol =>
      exact ⟨.plain c, stringBody?_plain hcontrol hquote hslash, fun _ => by simp [joinPairs]⟩

/-- A text that is written in a string is read up to the closing quotation mark. -/
theorem stringBody?_escape (s t : Text) :
    ∃ ps, stringBody? (s.flatMap escape ++ '"' :: t) = some (ps, t) ∧ joinPairs ps = some s := by
  induction s with
  | nil => exact ⟨[], by simp [stringBody?], by simp [joinPairs]⟩
  | cons c s ih =>
    obtain ⟨ps, hread, hjoin⟩ := ih
    obtain ⟨p, hpiece, hstands⟩ := exists_piece c
    refine ⟨p :: ps, ?_, by rw [hstands, hjoin]; rfl⟩
    rw [List.flatMap_cons, List.append_assoc, hpiece, hread]
    rfl

theorem string?_escape (s : String) (t : Text) :
    string? (s.toList.flatMap escape ++ '"' :: t) = some (some s, t) := by
  obtain ⟨ps, hread, hjoin⟩ := stringBody?_escape s.toList t
  rw [string?, hread, Option.map_some, hjoin, Option.map_some, String.ofList_toList]

/-- A string begins with its quotation mark. -/
theorem jsonStringText_append (s : String) (t : Text) :
    jsonStringText (some s) ++ t = '"' :: (s.toList.flatMap escape ++ '"' :: t) := by
  simp [jsonStringText, stringText]

theorem memberName?_jsonStringText (s : String) (t : Text) :
    memberName? (jsonStringText (some s) ++ ':' :: t) = some (some s, t) := by
  rw [jsonStringText_append, memberName?, string?_escape]
  simp [skip_of_not_space (c := ':') rfl]

/-! ### Numbers -/

/-- A number is over in front of the text: the text does not go on with a digit, a point or an exponent. -/
def EndsNumber (t : Text) : Prop :=
  ∀ c ∈ t.head?, c.isDigit = false ∧ c ≠ '.' ∧ c ≠ 'e' ∧ c ≠ 'E'

theorem endsNumber_nil : EndsNumber [] := by simp [EndsNumber]

theorem endsNumber_newLine (level : Nat) (t : Text) : EndsNumber (newLine level ++ t) := by
  simp [EndsNumber, newLine]

theorem endsNumber_comma (t : Text) : EndsNumber (',' :: t) := by
  simp [EndsNumber]

section

variable {t r rest read : Text}

theorem digits?_append (hrest : EndsNumber rest) (h : digits? t = some (read, r)) :
    digits? (t ++ rest) = some (read, r ++ rest) := by
  have hstop : rest.takeWhile Char.isDigit = [] ∧ rest.dropWhile Char.isDigit = rest := by
    cases rest with
    | nil => exact ⟨rfl, rfl⟩
    | cons c rest => simp [(hrest c rfl).1]
  have htakes : (t ++ rest).takeWhile Char.isDigit = t.takeWhile Char.isDigit := by
    rw [List.takeWhile_append]
    split
    · next hall => rw [hstop.1, List.append_nil, (List.takeWhile_sublist _).eq_of_length hall]
    · rfl
  have hdrops : (t ++ rest).dropWhile Char.isDigit = t.dropWhile Char.isDigit ++ rest := by
    rw [List.dropWhile_append]
    split
    · next hall => rw [List.isEmpty_iff.mp hall, hstop.2, List.nil_append]
    · rfl
  simp only [digits?, htakes, hdrops] at h ⊢
  split at h
  · cases h
  · next hne =>
    rw [if_neg hne]
    cases h
    rfl

theorem whole?_of_ne {c : Char} (hc : c ≠ '0') (t : Text) : whole? (c :: t) = digits? (c :: t) := by
  rw [whole?]
  rintro rest heq
  exact hc (List.cons.inj heq).1

theorem whole?_append (hrest : EndsNumber rest) (h : whole? t = some (read, r)) :
    whole? (t ++ rest) = some (read, r ++ rest) := by
  cases t with
  | nil => simp [whole?, digits?] at h
  | cons c t =>
    by_cases hc : c = '0'
    · subst hc
      cases h
      rfl
    · rw [whole?_of_ne hc] at h
      rw [List.cons_append, whole?_of_ne hc, ← List.cons_append]
      exact digits?_append hrest h

theorem fraction?_of_ne (h : t.head? ≠ some '.') : fraction? t = some ([], t) := by
  rw [fraction?]
  rintro rest rfl
  exact h rfl

theorem fraction?_append (hrest : EndsNumber rest) (h : fraction? t = some (read, r)) :
    fraction? (t ++ rest) = some (read, r ++ rest) := by
  cases t with
  | nil =>
    cases h
    exact fraction?_of_ne fun hpoint => (hrest _ hpoint).2.1 rfl
  | cons c t =>
    by_cases hc : c = '.'
    · subst hc
      obtain ⟨⟨digits, r⟩, hdigits, ⟨⟩⟩ := Option.map_eq_some_iff.mp h
      simp [fraction?, digits?_append hrest hdigits]
    · rw [fraction?_of_ne (by simpa using hc)] at h
      cases h
      exact fraction?_of_ne (by simpa using hc)

theorem sign_append (h : t ≠ []) : sign (t ++ rest) = ((sign t).1, (sign t).2 ++ rest) := by
  obtain ⟨c, t, rfl⟩ := List.exists_cons_of_ne_nil h
  by_cases hplus : c = '+'
  · subst hplus
    rfl
  · by_cases hminus : c = '-'
    · subst hminus
      rfl
    · simp [sign, hplus, hminus]

theorem exponent?_append (hrest : EndsNumber rest) (h : exponent? t = some (read, r)) :
    exponent? (t ++ rest) = some (read, r ++ rest) := by
  cases t with
  | nil =>
    cases h
    cases rest with
    | nil => rfl
    | cons c rest => simp [exponent?, (hrest c rfl).2.2]
  | cons c t =>
    by_cases hc : (decide (c = 'e') || decide (c = 'E')) = true
    · simp only [exponent?, if_pos hc] at h
      obtain ⟨⟨digits, r⟩, hdigits, ⟨⟩⟩ := Option.map_eq_some_iff.mp h
      have hne : t ≠ [] := by
        rintro rfl
        cases hdigits
      simp only [exponent?, List.cons_append, if_pos hc, sign_append hne, digits?_append hrest hdigits,
        Option.map_some]
    · simp only [exponent?, if_neg hc] at h
      cases h
      simp only [exponent?, List.cons_append, if_neg hc]

theorem magnitude?_append (hrest : EndsNumber rest) (h : magnitude? t = some (read, r)) :
    magnitude? (t ++ rest) = some (read, r ++ rest) := by
  simp only [magnitude?, Option.bind_eq_bind, Option.bind_eq_some_iff] at h
  obtain ⟨⟨whole, t₁⟩, hwhole, ⟨fraction, t₂⟩, hfraction, ⟨exponent, t₃⟩, hexponent, ⟨⟩⟩ := h
  simp [magnitude?, whole?_append hrest hwhole, fraction?_append hrest hfraction,
    exponent?_append hrest hexponent]

theorem number?_of_ne (h : t.head? ≠ some '-') : number? t = magnitude? t := by
  rw [number?]
  rintro rest rfl
  exact h rfl

/-- What is read as a number is read as the same number in front of a text that ends it. -/
theorem number?_append (hrest : EndsNumber rest) (h : number? t = some (read, r)) :
    number? (t ++ rest) = some (read, r ++ rest) := by
  cases t with
  | nil => cases h
  | cons c t =>
    by_cases hc : c = '-'
    · subst hc
      obtain ⟨⟨digits, r⟩, hmagnitude, ⟨⟩⟩ := Option.map_eq_some_iff.mp h
      simp [number?, magnitude?_append hrest hmagnitude]
    · rw [number?_of_ne (by simpa using hc)] at h
      rw [number?_of_ne (by simpa using hc)]
      exact magnitude?_append hrest h

end

theorem head_of_digits? {t read r : Text} (h : digits? t = some (read, r)) :
    ∃ c rest, t = c :: rest ∧ c.isDigit = true := by
  cases t with
  | nil => cases h
  | cons c t =>
    refine ⟨c, t, rfl, ?_⟩
    by_contra hc
    simp [digits?, hc] at h

/-- A number of the grammar begins with a minus or a digit. -/
theorem head_of_number? {t read r : Text} (h : number? t = some (read, r)) :
    ∃ c rest, t = c :: rest ∧ (c = '-' ∨ c.isDigit = true) := by
  cases t with
  | nil => cases h
  | cons c t =>
    refine ⟨c, t, rfl, ?_⟩
    by_cases hminus : c = '-'
    · exact .inl hminus
    · right
      rw [number?_of_ne (by simpa using hminus)] at h
      simp only [magnitude?, Option.bind_eq_bind, Option.bind_eq_some_iff] at h
      obtain ⟨⟨whole, t₁⟩, hwhole, -⟩ := h
      by_cases hc : c = '0'
      · subst hc
        rfl
      · rw [whole?_of_ne hc] at hwhole
        obtain ⟨_, _, ⟨⟩, hdigit⟩ := head_of_digits? hwhole
        exact hdigit

/-- The digits of a positive number do not begin with nought. -/
theorem head?_toDigits_ne {n : Nat} (h : 0 < n) : (Nat.toDigits 10 n).head? ≠ some '0' := by
  have hsmall : ∀ n < 10, 0 < n → n.digitChar ≠ '0' := by decide
  induction n using Nat.strongRecOn with
  | ind n ih =>
    rw [Nat.toDigits_eq_if (by decide)]
    split
    · next hlt => simpa using hsmall n hlt h
    · next hge =>
      obtain ⟨c, t, hcons⟩ := List.exists_cons_of_ne_nil (Nat.toDigits_ne_nil (n := n / 10) (b := 10))
      have hhead := ih (n / 10) (by omega) (by omega)
      rw [hcons] at hhead ⊢
      exact hhead

/-- The digits of a natural number are a number of the grammar. -/
theorem number?_toDigits (n : Nat) : number? (Nat.toDigits 10 n) = some (Nat.toDigits 10 n, []) := by
  have hdigit : ∀ c ∈ Nat.toDigits 10 n, c.isDigit = true := fun c =>
    Nat.isDigit_of_mem_toDigits (by decide) (by decide)
  rcases Nat.eq_zero_or_pos n with rfl | hpos
  · rfl
  · have hdigits : digits? (Nat.toDigits 10 n) = some (Nat.toDigits 10 n, []) := by
      simp [digits?, List.takeWhile_eq_self_iff.mpr hdigit, List.dropWhile_eq_nil_iff.mpr hdigit,
        Nat.toDigits_ne_nil]
    obtain ⟨c, t, hcons⟩ := List.exists_cons_of_ne_nil (Nat.toDigits_ne_nil (n := n) (b := 10))
    have hzero : c ≠ '0' := by
      rintro rfl
      exact head?_toDigits_ne hpos (by rw [hcons]; rfl)
    have hminus : c ≠ '-' := by
      rintro rfl
      exact absurd (hdigit '-' (by simp [hcons])) (by decide)
    rw [hcons] at hdigits ⊢
    rw [number?_of_ne (by simpa using hminus), magnitude?, whole?_of_ne hzero, hdigits]
    simp [fraction?, exponent?]

/-- A natural number is read as it was written. -/
theorem natural?_ofNat {n : Nat} (h : n < Nat.pow 2 64) : natural? (ofNat n) = some n := by
  have hdigits : Decimal.natural? (Nat.toDigits 10 n) = some n := by
    have hall : (Nat.toDigits 10 n).all Char.isDigit = true :=
      List.all_eq_true.mpr fun c => Nat.isDigit_of_mem_toDigits (by decide) (by decide)
    simp [Decimal.natural?, hall, Nat.toDigits_ne_nil, Decimal.ofDigits, Nat.ofDigitChars_ten_toDigits]
  simp only [ofNat, natural?, hdigits, Option.bind_some]
  exact if_pos h

end Flowchart.Json
