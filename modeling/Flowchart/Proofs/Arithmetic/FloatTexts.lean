import Flowchart.Proofs.Numerals

/-!
# The texts of floats

What is written for a float is a word, or digits with a point between them, and there may be a minus before either.

* `IsMagnitude`, `display_eq` — the texts that are written.
* **`read?_display`** — they are read as floats.
* `settled_display` — so a result in floats is never taken for a whole number.
-/

namespace Flowchart

namespace Decimal

/-- The texts that are written for floats, but for a sign. -/
inductive IsMagnitude : Text → Prop
  | notANumber : IsMagnitude "NaN".toList
  | infinite : IsMagnitude "inf".toList
  | decimal (whole fraction : Numeral) : IsMagnitude (whole.digits ++ '.' :: fraction.digits)

theorem isMagnitude_positional (a : Amount) : IsMagnitude (positional a) := by
  unfold positional
  split
  · have hnought : ∀ c ∈ ['0'], c.isDigit = true := by simp
    exact .decimal (Arithmetic.Figure.digitsOf _) ⟨['0'], List.cons_ne_nil _ _, hnought⟩
  · dsimp only
    generalize a.places.toNat = places
    generalize a.digits % Nat.pow 10 places = rest
    have hpadded : ∀ c ∈ padded places (digitsOf rest), c.isDigit = true := by
      intro c hc
      rcases List.mem_append.mp hc with hc | hc
      · rw [List.eq_of_mem_replicate hc]
        rfl
      · exact (Arithmetic.Figure.digitsOf rest).isDigit c hc
    have hne : padded places (digitsOf rest) ≠ [] :=
      List.append_ne_nil_of_right_ne_nil _ (Arithmetic.Figure.digitsOf rest).ne_nil
    exact .decimal (Arithmetic.Figure.digitsOf _) ⟨_, hne, hpadded⟩

/-- **What is written for a float.** -/
theorem display_eq (x : Float) : ∃ negative t, display x = withSign negative t ∧ IsMagnitude t := by
  unfold display
  split
  · exact ⟨false, _, rfl, .notANumber⟩
  · exact ⟨_, _, rfl, .infinite⟩
  · next b _ =>
    refine ⟨_, _, rfl, ?_⟩
    split
    · have hnought : ∀ c ∈ ['0'], c.isDigit = true := by simp
      exact .decimal (Arithmetic.Figure.digitsOf _) ⟨['0'], List.cons_ne_nil _ _, hnought⟩
    · exact isMagnitude_positional _

/-- **What is written for a float is read as a float.** -/
theorem read?_display (x : Float) : ∃ y, read? (display x) = some y := by
  obtain ⟨negative, t, htext, ht⟩ := display_eq x
  rw [htext]
  cases ht with
  | notANumber | infinite => cases negative <;> exact ⟨_, rfl⟩
  | decimal whole fraction => exact ⟨_, WrittenNumber.read?_text ⟨⟨negative, whole⟩, some fraction⟩⟩

/-- No such text is a whole numeral. -/
theorem isWholeNumeral_display (x : Float) : Literal.isWholeNumeral (display x) = false := by
  obtain ⟨negative, t, htext, ht⟩ := display_eq x
  rw [htext]
  cases ht with
  | notANumber | infinite => cases negative <;> rfl
  | decimal whole fraction => exact WrittenNumber.isWholeNumeral_text ⟨⟨negative, whole⟩, some fraction⟩

end Decimal

/-- **A result in floats is a float**, whether or not it is a whole number. -/
theorem Arithmetic.settled_display (x : Float) : ∃ y, settled (Decimal.display x) = .float y := by
  obtain ⟨y, hy⟩ := Decimal.read?_display x
  refine ⟨y, ?_⟩
  unfold settled Literal.numeral?
  rw [Decimal.isWholeNumeral_display, hy]
  cases Literal.isDecimalNumeral (Decimal.display x) <;> rfl

end Flowchart
