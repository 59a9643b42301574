import Flowchart.Proofs.Condition.Chains

/-!
# The language of conditions

What the reader of conditions makes of a text by cutting it again and again is the meaning of a formula.  Formulas
are chains of operands; an operand is a text without connectives, a formula in parentheses, or the negation of one.

* `Atom`, `Operand`, `Formula` — the formulas, with `Formula.text` as they are written.
* `Formula.meaning` — what a formula means: groups of operands, negations, and what texts without connectives mean.
* `Operand.sound`, `Operand.evaluates` — an operand is a text that the reader does not cut, and it is evaluated to its
  meaning; both go through all formulas inside the operand.
* **`evaluateCondition_formula`** — the text of a formula is evaluated to its meaning, with all effects in order.
-/

namespace Flowchart

/-- A text without connectives: trimmed and not empty, with nothing left open at its end, and without a question mark
there. -/
structure Atom where
  text : Text
  ne_nil : text ≠ []
  trimmed : Text.trim text = text
  unasked : text.getLast? ≠ some '?'
  closed : Nesting.through? {} text = some {}
  uncut : ∀ k : Connective, k.split? text = none

/-- Blanks, any number of them. -/
abbrev Blanks := { m : Text // ∀ c ∈ m, Text.isBlank c = true }

/-- What connectives join. -/
inductive Operand where
  | atom (a : Atom)
  /-- A formula in parentheses. -/
  | group (f : Chain Operand)
  /-- The negation of a formula in parentheses. -/
  | negation (s : Negation) (gap : Blanks) (f : Chain Operand)

/-- Operands joined by connectives. -/
abbrev Formula := Chain Operand

/-- A connective is surrounded by blanks. -/
structure Joint.Spaced (j : Joint) : Prop where
  before_ne : j.before ≠ []
  after_ne : j.after ≠ []
  blank_before : ∀ c ∈ j.before, Text.isBlank c = true
  blank_after : ∀ c ∈ j.after, Text.isBlank c = true

/-- Such a connective counts, whatever stands on its sides. -/
theorem Joint.Spaced.parts {j : Joint} (h : j.Spaced) (left right : Text) : j.Parts left right where
  blank_before := h.blank_before
  blank_after := h.blank_after
  boundary_before _ := by
    rw [List.getLast?_append_of_ne_nil left h.before_ne, List.getLast?_eq_some_getLast h.before_ne]
    simp [Connective.isBoundary, Text.isNamePart_of_isBlank (h.blank_before _ (List.getLast_mem h.before_ne))]
  boundary_after _ := by
    rw [List.head?_append_of_ne_nil j.after h.after_ne, List.head?_eq_some_head h.after_ne]
    simp [Connective.isBoundary, Text.isNamePart_of_isBlank (h.blank_after _ (List.head_mem h.after_ne))]

/-- A text in parentheses. -/
def Text.inParentheses (t : Text) : Text := '(' :: (t ++ [')'])

mutual

/-- An operand as it is written. -/
def Operand.text : Operand → Text
  | .atom a => a.text
  | .group f => Text.inParentheses (Formula.texts f).text
  | .negation s gap f => s.text ++ (gap.1 ++ Text.inParentheses (Formula.texts f).text)

/-- The operands of a formula as they are written. -/
def Formula.texts : Chain Operand → Chain Text
  | .single o => .single o.text
  | .join o j rest => .join o.text j (Formula.texts rest)

end

mutual

/-- Every connective inside an operand is surrounded by blanks. -/
def Operand.Spaced : Operand → Prop
  | .atom _ => True
  | .group f => Formula.Spaced f
  | .negation _ _ f => Formula.Spaced f

/-- Every connective of a formula and inside its operands is surrounded by blanks. -/
def Formula.Spaced : Chain Operand → Prop
  | .single o => o.Spaced
  | .join o j rest => o.Spaced ∧ j.Spaced ∧ Formula.Spaced rest

end

mutual

/-- What an operand means. -/
def Operand.meaning {σ : Type} (env : Environment σ) : Operand → Action σ Bool
  | .atom a => evaluateCondition env a.text
  | .group f => (Formula.meanings env f).truth
  | .negation _ _ f => (Formula.meanings env f).truth >>= fun a => pure !a

/-- What the operands of a formula mean. -/
def Formula.meanings {σ : Type} (env : Environment σ) : Chain Operand → Chain (Action σ Bool)
  | .single o => .single (o.meaning env)
  | .join o j rest => .join (o.meaning env) j (Formula.meanings env rest)

end

namespace Formula

/-- A formula as it is written. -/
def text (f : Formula) : Text := (texts f).text

/-- What a formula means: its *and*s cut it into groups; all groups have to hold, and of each group one operand. -/
def meaning {σ : Type} (env : Environment σ) (f : Formula) : Action σ Bool := (meanings env f).truth

/-- The connectives of a formula count where they are written. -/
theorem parted {f : Formula} (h : Spaced f) : (texts f).Parted := by
  induction f with
  | single o => exact trivial
  | join o j rest ih => exact ⟨h.2.1.parts _ _, ih h.2.2⟩

end Formula

/-! ### Operands are not cut -/

namespace Condition

/-- Parentheses are tidy margins. -/
theorem tidy_inParentheses (t : Text) : Tidy (Text.inParentheses t) := by
  have hlast : (Text.inParentheses t).getLast? = some ')' := by
    unfold Text.inParentheses
    rw [List.getLast?_cons, List.getLast?_concat]
    rfl
  refine ⟨List.cons_ne_nil _ _, ?_, ?_, ?_⟩
  · rintro c ⟨⟩
    rfl
  · rw [hlast]
    rintro c ⟨⟩
    rfl
  · rw [hlast]
    decide

/-- A negation in front leaves a tidy text tidy. -/
theorem Tidy.negated {t : Text} (h : Tidy t) (s : Negation) (m : Text) : Tidy (s.text ++ (m ++ t)) := by
  have hs : Tidy s.text := by
    cases s <;> refine ⟨by decide, ?_, ?_, by decide⟩ <;> rintro c ⟨⟩ <;> rfl
  have htidy := hs.append h m
  rwa [List.append_assoc] at htidy

end Condition

open Condition

/-- No name goes over from a negation into what is negated. -/
theorem apart_negation (s : Negation) (gap : Blanks) (t : Text) :
    Connective.Apart s.text (gap.1 ++ Text.inParentheses t) :=
  .inr (Connective.isBoundary_blanks gap.2 rfl)

mutual

/-- **The reader does not cut an operand**, nor its margins. -/
theorem Operand.sound : ∀ o : Operand, o.Spaced → Unbroken o.text ∧ Tidy o.text
  | .atom a, _ => by
    obtain ⟨hfirst, hlast⟩ := Text.edges_of_trim a.trimmed
    exact ⟨⟨a.closed, a.uncut⟩, ⟨a.ne_nil, hfirst, hlast, a.unasked⟩⟩
  | .group f, h => by
    have hclosed := (Formula.sound f h).closed (Formula.parted h)
    exact ⟨.enclosed hclosed, tidy_inParentheses _⟩
  | .negation s gap f, h => by
    have hclosed := (Formula.sound f h).closed (Formula.parted h)
    have hunbroken : Unbroken (Text.inParentheses (Formula.texts f).text) := .enclosed hclosed
    exact ⟨hunbroken.negated s gap.2 (apart_negation s gap _), (tidy_inParentheses _).negated s gap.1⟩

theorem Formula.sound : ∀ f : Chain Operand, Formula.Spaced f → (Formula.texts f).Sound
  | .single o, h => by
    intro t ht
    rw [List.mem_singleton.mp ht]
    exact o.sound h
  | .join o j rest, h => by
    intro t ht
    rcases List.mem_cons.mp ht with rfl | ht
    · exact o.sound h.1
    · exact Formula.sound rest h.2.2 t ht

end

/-! ### Operands mean what they mean -/

section

variable {σ : Type} (env : Environment σ)

/-- A text in parentheses means what the text means. -/
theorem evaluateCondition_inParentheses {t : Text} (h : Nesting.through? {} t = some {}) :
    evaluateCondition env (Text.inParentheses t) = evaluateCondition env t := by
  have hquestion := (tidy_inParentheses t).question_eq
  have hunbroken : Unbroken (Text.inParentheses t) := .enclosed h
  refine evaluateCondition_of_enclosed env ?_ ?_ ?_
  · rw [hquestion]
    exact hunbroken.uncut
  · rw [hquestion]
    rfl
  · rw [hquestion]
    exact Text.enclosed?_of_through h

/-- The negation of a text in parentheses is evaluated as the text, and comes out the other way. -/
theorem evaluateCondition_negation (s : Negation) (gap : Blanks) {t : Text} (h : Nesting.through? {} t = some {}) :
    evaluateCondition env (s.text ++ (gap.1 ++ Text.inParentheses t)) =
      evaluateCondition env t >>= fun a => pure !a := by
  have htidy := tidy_inParentheses t
  have hquestion := (htidy.negated s gap.1).question_eq
  have hunbroken : Unbroken (Text.inParentheses t) := .enclosed h
  have happart := apart_negation s gap t
  rw [← evaluateCondition_inParentheses env h]
  refine evaluateCondition_of_negated env ?_ ?_
  · rw [hquestion]
    exact (hunbroken.negated s gap.2 happart).uncut
  · rw [hquestion]
    refine negated?_text s gap.2 htidy happart ?_
    obtain ⟨m, hm⟩ := gap
    cases m with
    | nil => exact fun hc => by cases hc
    | cons c m =>
      rintro ⟨⟩
      exact absurd (hm '=' List.mem_cons_self) (by decide)

mutual

/-- **An operand is evaluated to its meaning**, and so are all operands of the formula inside it. -/
theorem Operand.evaluates : ∀ o : Operand, o.Spaced → evaluateCondition env o.text = o.meaning env
  | .atom _, _ => rfl
  | .group f, h => by
    show evaluateCondition env (Text.inParentheses (Formula.texts f).text) = (Formula.meanings env f).truth
    have hsound := Formula.sound f h
    rw [evaluateCondition_inParentheses env (hsound.closed (Formula.parted h)),
      Chain.evaluateCondition_chain env hsound (Formula.parted h), Formula.evaluates f h]
  | .negation s gap f, h => by
    show evaluateCondition env (s.text ++ (gap.1 ++ Text.inParentheses (Formula.texts f).text)) = _
    have hsound := Formula.sound f h
    rw [evaluateCondition_negation env s gap (hsound.closed (Formula.parted h)),
      Chain.evaluateCondition_chain env hsound (Formula.parted h), Formula.evaluates f h]
    rfl

theorem Formula.evaluates : ∀ f : Chain Operand, Formula.Spaced f →
    (Formula.texts f).map (evaluateCondition env) = Formula.meanings env f
  | .single o, h => congrArg Chain.single (o.evaluates h)
  | .join o j rest, h => by
    show Chain.join _ j _ = Chain.join _ j _
    rw [o.evaluates h.1, Formula.evaluates rest h.2.2]

end

end

/-- **The language of conditions.**  Take any formula: operands that are joined by connectives between blanks, each
of them a text without connectives, a formula in parentheses, or the negation of one, nested to any depth and with
any spellings.  Its text is evaluated to its meaning in every environment.  The meaning is the conjunction of the
groups between its *and*s, each the disjunction of its operands; operands are evaluated from left to right and only
as long as they are needed, the first fault ends everything, and calls change the state of the environment in this
order. -/
theorem evaluateCondition_formula {σ : Type} (env : Environment σ) {f : Formula} (h : Formula.Spaced f) :
    evaluateCondition env f.text = f.meaning env := by
  unfold Formula.text Formula.meaning
  rw [Chain.evaluateCondition_chain env (Formula.sound f h) (Formula.parted h), Formula.evaluates env f h]

/-- A condition with an *and* behind an *or*, and with one more of each in a negation. -/
def mixedFormula : Formula :=
  let atom (t : String) (ne_nil : t.toList ≠ []) (trimmed : Text.trim t.toList = t.toList)
      (unasked : t.toList.getLast? ≠ some '?') (closed : Nesting.through? {} t.toList = some {})
      (uncut : ∀ k : Connective, k.split? t.toList = none) : Operand :=
    .atom { text := t.toList, ne_nil, trimmed, unasked, closed, uncut }
  let a := atom "a = 1" (by decide) (by decide) (by decide) (by decide) (by rintro ⟨⟩ <;> decide)
  let b := atom "b" (by decide) (by decide) (by decide) (by decide) (by rintro ⟨⟩ <;> decide)
  let c := atom "f(\"AND\")" (by decide) (by decide) (by decide) (by decide) (by rintro ⟨⟩ <;> decide)
  let blank : Text := [' ']
  .join a ⟨.or, .word, blank, blank⟩
    (.join
      (.negation .word ⟨blank, List.all_eq_true.mp rfl⟩
        (.join b ⟨.or, .single, blank, blank⟩ (.join c ⟨.and, .doubled, blank, blank⟩ (.single a))))
      ⟨.and, .word, blank, blank⟩ (.single (.group (.single c))))

/-- It is read as a conjunction all the same. -/
theorem evaluateCondition_formula_mixed :
    mixedFormula.text = "a = 1 OR NOT (b | f(\"AND\") && a = 1) AND (f(\"AND\"))".toList ∧
      Formula.Spaced mixedFormula ∧
      evaluateCondition Scope.environment mixedFormula.text = mixedFormula.meaning Scope.environment := by
  have hblank : ∀ c ∈ [' '], Text.isBlank c = true := List.all_eq_true.mp rfl
  have hspaced : ∀ k s, Joint.Spaced ⟨k, s, [' '], [' ']⟩ := fun k s => ⟨by simp, by simp, hblank, hblank⟩
  have h : Formula.Spaced mixedFormula := by
    refine ⟨trivial, hspaced _ _, ?_, hspaced _ _, trivial⟩
    exact ⟨trivial, hspaced _ _, trivial, hspaced _ _, trivial⟩
  exact ⟨rfl, h, evaluateCondition_formula Scope.environment h⟩

end Flowchart
