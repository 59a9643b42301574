import Flowchart.Proofs.Condition.Respelling
import Flowchart.Proofs.RoundedFloats

/-!
# Comparisons of 64-bit numbers

Two variables that hold numbers of 64 bits are compared as floats, and so as the rounded numbers.  As rounding keeps the
order, the only error there can be is that numbers count as equal which are rounded to the same.

* `Compared.ofNames` — two variables with a sign of comparison between them.
* `evaluateCondition_ofNames` — what a comparison of them comes to.
* **`evaluateCondition_wide`** — and when this is the comparison of the numbers.
* `evaluateCondition_merged` — two numbers that count as equal, and are not.
-/

namespace Flowchart

open WholeFloat

namespace Compared

/-- Two variables with a sign of comparison between them. -/
def ofNames (x y : VariableName) (before after : Blanks) (c : Comparator) (lone : Bool) : Compared where
  left := .named x
  before := before
  comparator := c
  lone := lone
  after := after
  right := .named y

end Compared

section

variable {σ : Type} {env : Environment σ} {s : σ} {x y : VariableName} {before after : Blanks} {c : Comparator}
  {lone : Bool} {a b : Int64}

theorem natAbs_toInt_lt (k : Int64) : k.toInt.natAbs < 2 ^ 64 := by
  have hlow : -9223372036854775808 ≤ k.toInt := k.le_toInt
  have hhigh : k.toInt < 9223372036854775808 := k.toInt_lt
  omega

/-- **A comparison of two variables** comes out as the one of the rounded numbers. -/
theorem evaluateCondition_ofNames (ha : env.lookup s (String.ofList x.text) = some (.int a))
    (hb : env.lookup s (String.ofList y.text) = some (.int b)) :
    evaluateCondition env (Compared.ofNames x y before after c lone).text s =
      .done (c.ofInts (rounded a.toInt) (rounded b.toInt)) s := by
  have hcompared : evaluateCondition env (Compared.ofNames x y before after c lone).text s =
      .done (c.holds (.int a) (.int b)) s :=
    Compared.evaluates_of_values (Term.evaluate_named ha) (Term.evaluate_named hb)
  rw [hcompared]
  exact congrArg (Outcome.done · s) (c.ofFloats_rounded (natAbs_toInt_lt a) (natAbs_toInt_lt b))

end

/-- **Comparisons of 64-bit numbers.**  Let two variables hold 64-bit numbers `a` and `b`, and let a sign of comparison
stand between their names, with any blanks around it.  The condition comes out as the comparison of the numbers rounded
to 53 bits, and changes nothing.  This is the comparison of `a` and `b`, whatever the sign, exactly if the numbers are
equal or are not rounded to the same; so it is for all numbers up to `2 ^ 53`. -/
theorem evaluateCondition_wide {σ : Type} (env : Environment σ) (s : σ) (x y : VariableName) (before after : Blanks)
    (c : Comparator) (lone : Bool) (a b : Int64) (ha : env.lookup s (String.ofList x.text) = some (.int a))
    (hb : env.lookup s (String.ofList y.text) = some (.int b)) :
    evaluateCondition env (x.text ++ (before.1 ++ (c.sign lone ++ (after.1 ++ y.text)))) s =
        .done (c.ofInts (rounded a.toInt) (rounded b.toInt)) s ∧
      ((∀ d : Comparator, d.ofInts (rounded a.toInt) (rounded b.toInt) = d.ofInts a.toInt b.toInt) ↔
        a = b ∨ rounded a.toInt ≠ rounded b.toInt) ∧
      (a.toInt.natAbs ≤ 2 ^ 53 ∧ b.toInt.natAbs ≤ 2 ^ 53 →
        ∀ d : Comparator, d.ofInts (rounded a.toInt) (rounded b.toInt) = d.ofInts a.toInt b.toInt) := by
  refine ⟨evaluateCondition_ofNames ha hb, ?_, ?_⟩
  · rw [Comparator.ofInts_rounded_iff, Int64.toInt_inj]
  · rintro ⟨hsmall, hsmall'⟩ d
    rw [rounded_of_le hsmall, rounded_of_le hsmall']

/-- A name of one letter. -/
def VariableName.letter (c : Char) (h : Text.isName [c] = true) : VariableName where
  text := [c]
  isName := h
  no_connective k heq := by
    have hlength : 1 = k.word.length := congrArg List.length heq
    cases k <;> cases hlength
  no_negation heq := by
    have hlength : 1 = Negation.word.text.length := congrArg List.length heq
    cases hlength

/-- Numbers beyond `2 ^ 53` are told apart if they are not rounded to the same. -/
theorem evaluateCondition_wide_apart :
    let scope := (({} : Scope).set "x" (.int 9007199254740993)).set "y" (.int 9007199254740994)
    rounded 9007199254740993 ≠ rounded 9007199254740994 ∧
      evaluateCondition Scope.environment "x < y".toList scope = .done true scope := by
  intro scope
  have hx : Scope.environment.lookup scope (String.ofList ['x']) = some (.int 9007199254740993) := by decide
  have hy : Scope.environment.lookup scope (String.ofList ['y']) = some (.int 9007199254740994) := by decide
  have hapart : rounded 9007199254740993 ≠ rounded 9007199254740994 := by decide
  obtain ⟨hvalue, hexact, -⟩ := evaluateCondition_wide Scope.environment scope (.letter 'x' rfl) (.letter 'y' rfl)
    Blanks.one Blanks.one .less false 9007199254740993 9007199254740994 hx hy
  rw [hexact.mpr (.inr hapart)] at hvalue
  exact ⟨hapart, hvalue⟩

/-- The number after `2 ^ 53` counts as equal to it. -/
theorem evaluateCondition_merged :
    let scope := (({} : Scope).set "x" (.int 9007199254740993)).set "y" (.int 9007199254740992)
    (9007199254740993 : Int64) ≠ 9007199254740992 ∧
      evaluateCondition Scope.environment "x == y".toList scope = .done true scope := by
  intro scope
  have hx : Scope.environment.lookup scope (String.ofList ['x']) = some (.int 9007199254740993) := by decide
  have hy : Scope.environment.lookup scope (String.ofList ['y']) = some (.int 9007199254740992) := by decide
  have hvalue : evaluateCondition Scope.environment "x == y".toList scope =
      .done (Comparator.equal.ofInts (rounded 9007199254740993) (rounded 9007199254740992)) scope :=
    @evaluateCondition_ofNames _ Scope.environment scope (.letter 'x' rfl) (.letter 'y' rfl) Blanks.one Blanks.one .equal
      false _ _ hx hy
  have hsame : Comparator.equal.ofInts (rounded 9007199254740993) (rounded 9007199254740992) = true := by decide
  rw [hsame] at hvalue
  exact ⟨by decide, hvalue⟩

end Flowchart
