import Flowchart.Proofs.Arithmetic.Rewriting

/-!
# Single operations on 64-bit numbers

Two variables that hold 64-bit numbers are added, subtracted or multiplied.  On the way their numerals stand in a text,
and signs are merged there before the operation is carried out.  The result is exact whenever it is a 64-bit number,
with one exception: the least number has no numeral without its sign, so where the sign is merged into the operator,
what is left is no 64-bit number any more.

* `Held`, `held_natAbs_iff` — the numbers of 64 bits; all of them but the least are held without their sign, too.
* `Settles.unique`, `reduce_of_reduceOnce?` — what a loop comes to is known from its rounds.
* `Figure.exactText?_eq` — when the result of an operation on two figures is exact.
* `Figure.compute_pair` — the result is all that is left of the two figures.
* `Calculation.fold_pair` — two variables with an operator between them become two figures.
* **`Calculation.evaluate_operation`** — the value of an operation: when it is exact, and when it is a float.
* `Calculation.evaluate_sum_least` — a sum that is held and still comes out as a float.
-/

namespace Flowchart.Arithmetic

/-! ### Numbers of 64 bits -/

/-- A whole number is one of 64 bits. -/
def Held (n : Int) : Prop := ∃ k : Int64, k.toInt = n

theorem held_toInt (k : Int64) : Held k.toInt := ⟨k, rfl⟩

theorem int64Of?_of_held {n : Int} (h : Held n) : ∃ k, int64Of? n = some k ∧ k.toInt = n := by
  obtain ⟨k, rfl⟩ := h
  exact ⟨k, int64Of?_toInt k, rfl⟩

theorem int64Of?_eq_none {n : Int} (h : ¬Held n) : int64Of? n = none := by
  cases hk : int64Of? n with
  | none => rfl
  | some k => exact absurd ⟨k, toInt_of_int64Of hk⟩ h

/-- Without its sign, only the least of the numbers is not held. -/
theorem held_natAbs_iff (k : Int64) : Held k.toInt.natAbs ↔ k ≠ Int64.minValue := by
  have hlow : -9223372036854775808 ≤ k.toInt := k.le_toInt
  have hhigh : k.toInt < 9223372036854775808 := k.toInt_lt
  have hleast : Int64.minValue.toInt = -9223372036854775808 := rfl
  constructor
  · rintro ⟨m, hm⟩ rfl
    have hm' : m.toInt < 9223372036854775808 := m.toInt_lt
    omega
  · intro hne
    have hne' : k.toInt ≠ -9223372036854775808 := fun heq => hne (Int64.toInt_inj.mp (heq.trans hleast.symm))
    refine ⟨Int64.ofInt k.toInt.natAbs, Int64.toInt_ofInt_of_le ?_ ?_⟩ <;> omega

/-! ### One round -/

section

variable {among : Char → Bool} {next? : Text → Option Text} {n m : Nat} {t u v : Text}

/-- What a loop comes to is determined. -/
theorem Settles.unique (hu : Settles next? n t u) (hv : Settles next? m t v) : u = v := by
  induction hu generalizing m with
  | stop h =>
    cases hv with
    | stop => rfl
    | round h' => rw [h] at h'; cases h'
  | round h _ ih =>
    cases hv with
    | stop h' => rw [h] at h'; cases h'
    | round h' hrest =>
      obtain rfl := Option.some.inj (h.symm.trans h')
      exact ih hrest

/-- In a result there is no operation. -/
theorem reduceOnce?_plainBehindMinuses (hamong : ∀ c, among c = true → isOperator c = true) (h : PlainBehindMinuses t) :
    reduceOnce? among none t = none := by
  by_contra hsome
  obtain ⟨u, hu⟩ := Option.ne_none_iff_exists'.mp hsome
  have hless := pending_reduceOnce? hamong (fun c hc => by cases hc) hu
  rw [pending_plainBehindMinuses hamong (fun _ => rfl) h] at hless
  omega

theorem reduce_of_none (hamong : ∀ c, among c = true → isOperator c = true) (h : reduceOnce? among none t = none) :
    reduce among t = t := by
  obtain ⟨n, -, hsettles⟩ := settles_reduce hamong t
  exact hsettles.unique (.stop h)

theorem reduce_of_reduceOnce? (hamong : ∀ c, among c = true → isOperator c = true)
    (h : reduceOnce? among none t = some u) (hu : PlainBehindMinuses u) : reduce among t = u := by
  obtain ⟨n, -, hsettles⟩ := settles_reduce hamong t
  exact hsettles.unique (.round h (.stop (reduceOnce?_plainBehindMinuses hamong hu)))

end

/-! ### Two figures -/

namespace Figure

variable (f g : Figure) (s : Operator)

theorem int64?_eq : Literal.int64? f.text = int64Of? f.value := by
  unfold Literal.int64? text
  rw [Term.integer?_numeral]
  rfl

/-- The operation with an operator between two figures. -/
def operation : Operation := ⟨f.text, s.char, g.text⟩

/-- **A result is exact** if both figures and the result are numbers of 64 bits, and only then. -/
theorem exactText?_eq :
    (f.operation g s).exactText? =
      (int64Of? f.value).bind fun _ => (int64Of? g.value).bind fun _ =>
        (int64Of? (s.apply f.value g.value)).map fun n => Decimal.integerText n.toInt := by
  have hquotient : s.char ≠ '/' := by cases s <;> decide
  unfold operation Operation.exactText?
  rw [if_neg hquotient, int64?_eq, int64?_eq]
  cases ha : int64Of? f.value with
  | none => rfl
  | some a =>
    cases hb : int64Of? g.value with
    | none => rfl
    | some b =>
      have hresult : exactResult s.char a.toInt b.toInt = s.apply f.value g.value := by
        rw [toInt_of_int64Of ha, toInt_of_int64Of hb]
        cases s <;> rfl
      dsimp only
      rw [hresult]
      rfl

theorem settled_resultText_of_held (hf : Held f.value) (hg : Held g.value) {n : Int64}
    (hn : n.toInt = s.apply f.value g.value) : settled (f.operation g s).resultText = .int n := by
  obtain ⟨a, ha, -⟩ := int64Of?_of_held hf
  obtain ⟨b, hb, -⟩ := int64Of?_of_held hg
  have hexact : (f.operation g s).exactText? = some (ofInt n.toInt).text := by
    rw [exactText?_eq, ha, hb, ← hn, int64Of?_toInt, text_ofInt]
    rfl
  have hnumeral : Literal.numeral? (ofInt n.toInt).text = some (Literal.wholeValue (ofInt n.toInt).text) :=
    Literal.numeral?_text _ _
  unfold Operation.resultText settled
  rw [hexact]
  show (Literal.numeral? (ofInt n.toInt).text).getD _ = _
  rw [hnumeral]
  show Literal.wholeValue _ = _
  unfold Literal.wholeValue
  rw [int64?_eq, value_ofInt, int64Of?_toInt]

theorem settled_resultText_of_not_held
    (h : ¬(Held f.value ∧ Held g.value ∧ Held (s.apply f.value g.value))) :
    ∃ x, settled (f.operation g s).resultText = .float x := by
  have hexact : (f.operation g s).exactText? = none := by
    rw [exactText?_eq]
    by_cases hf : Held f.value
    · by_cases hg : Held g.value
      · obtain ⟨a, ha, -⟩ := int64Of?_of_held hf
        obtain ⟨b, hb, -⟩ := int64Of?_of_held hg
        rw [ha, hb, int64Of?_eq_none fun hresult => h ⟨hf, hg, hresult⟩]
        rfl
      · obtain ⟨a, ha, -⟩ := int64Of?_of_held hf
        rw [ha, int64Of?_eq_none hg]
        rfl
    · rw [int64Of?_eq_none hf]
      rfl
  unfold Operation.resultText
  rw [hexact]
  exact settled_display _

/-- **Two figures with an operator between them** become the result of the operation. -/
theorem compute_pair : reduce isSum (reduce isProduct (rowText f [(s, g)])) = (f.operation g s).resultText := by
  have hplain := (f.operation g s).plainBehindMinuses_resultText
  have hrow : rowText f [(s, g)] = f.text ++ s.char :: (g.text ++ []) := by
    rw [List.append_nil]
    rfl
  have honce : ∀ among : Char → Bool, among s.char = true →
      reduceOnce? among none (rowText f [(s, g)]) = some (f.operation g s).resultText := by
    intro among hs
    rw [hrow, reduceOnce?_operation f g s hs stops_nil rfl, List.append_nil]
    rfl
  by_cases hs : s = .times
  · rw [reduce_of_reduceOnce? isOperator_of_isProduct (honce isProduct (by rw [hs]; rfl)) hplain,
      reduce_of_none isOperator_of_isSum (reduceOnce?_plainBehindMinuses isOperator_of_isSum hplain)]
  · have hnone : reduceOnce? isProduct none (rowText f [(s, g)]) = none := by
      rw [hrow, reduceOnce?_text f (stops_char hs _), reduceOnce?_sign s g stops_nil]
      rfl
    rw [reduce_of_none isOperator_of_isProduct hnone,
      reduce_of_reduceOnce? isOperator_of_isSum (honce isSum (isSum_char hs)) hplain]

end Figure

/-! ### Two variables -/

/-- Operators are the same to sums when a difference is told as a sum. -/
theorem apply_of_asSum {p q : Operator × Int} (h : asSum p = asSum q) (a : Int) :
    p.1.apply a p.2 = q.1.apply a q.2 ∧ p.2.natAbs = q.2.natAbs := by
  have hsame : ∀ p, p.1.apply a p.2 = (asSum p).1.apply a (asSum p).2 ∧ p.2.natAbs = (asSum p).2.natAbs := by
    rintro ⟨s, b⟩
    cases s with
    | plus | times => exact ⟨rfl, rfl⟩
    | minus => exact ⟨Int.sub_eq_add_neg, (Int.natAbs_neg b).symm⟩
  rw [(hsame p).1, (hsame p).2, (hsame q).1, (hsame q).2, h]
  exact ⟨rfl, rfl⟩

/-- A product stays one when differences are told as sums. -/
theorem value_of_asSum_times {p : Operator × Int} {b : Int} (h : asSum p = (.times, b)) : p.2 = b := by
  obtain ⟨s, n⟩ := p
  cases s with
  | plus | minus => cases h
  | times => exact congrArg Prod.snd h

namespace Calculation

/-- Two variables with an operator between them. -/
def pair (x y : Text) (hx : Text.isName x = true) (hy : Text.isName y = true) (before after : Blanks) (s : Operator) :
    Calculation where
  first := ⟨[], .named x hx⟩
  members := [⟨before, s, after, ⟨[], .named y hy⟩⟩]
  ne_nil := List.cons_ne_nil _ _

variable {x y : Text} {hx : Text.isName x = true} {hy : Text.isName y = true} {before after : Blanks} {s : Operator}

theorem text_pair : (pair x y hx hy before after s).text = x ++ (before.1 ++ s.char :: (after.1 ++ y)) := by
  simp [text, pair, Factor.text, Quantity.text, Member.text]

/-- The values of the two variables, as those of all variables of the calculation. -/
theorem exists_values {lookup : String → Option Value} {a b : Int64}
    (ha : lookup (String.ofList x) = some (.int a)) (hb : lookup (String.ofList y) = some (.int b)) :
    ∃ v : String → Int64, v (String.ofList x) = a ∧ v (String.ofList y) = b ∧
      ∀ z ∈ (pair x y hx hy before after s).names, lookup z = some (.int (v z)) := by
  let v : String → Int64 := fun name => if name = String.ofList x then a else b
  have hva : v (String.ofList x) = a := if_pos rfl
  have hvb : v (String.ofList y) = b := by
    by_cases hsame : String.ofList y = String.ofList x
    · -- One variable on both sides has one value.
      rw [hsame, ha] at hb
      cases hb
      rw [hsame, hva]
    · exact if_neg hsame
  refine ⟨v, hva, hvb, fun z hz => ?_⟩
  rcases List.mem_cons.mp hz with rfl | hz
  · rw [hva, ha]
  · rw [List.mem_singleton.mp hz, hvb, hb]

/-- **What becomes of two variables**: two figures with an operator between them, for which the operation comes to the
same.  In a sum, the second figure has no sign, so it is the one of a 64-bit number unless the number is the least. -/
theorem fold_pair {lookup : String → Option Value} {a b : Int64}
    (ha : lookup (String.ofList x) = some (.int a)) (hb : lookup (String.ofList y) = some (.int b)) :
    ∃ (f g : Figure) (t : Operator),
      fold lookup (pair x y hx hy before after s).text = settled (f.operation g t).resultText ∧
      f.value = a.toInt ∧ t.apply a.toInt g.value = s.apply a.toInt b.toInt ∧
      (Held g.value ↔ s = .times ∨ b ≠ Int64.minValue) := by
  obtain ⟨v, hva, hvb, hv⟩ := @exists_values x y hx hy before after s lookup a b ha hb
  let d : Factor := ⟨[], .named x hx⟩
  let k : Member := ⟨before, s, after, ⟨[], .named y hy⟩⟩
  have hrow : dropPlus (mergeSigns (operands lookup (pair x y hx hy before after s).text)) =
      rowText (d.signed v).figure [(k.signed v).step] := by
    rw [operands_text hv]
    exact dropPlus_mergeSigns rfl fun _ he => by rw [List.mem_singleton.mp he]; exact k.position_ne
  have hfirst : (d.signed v).figure.value = a.toInt := by
    rw [← hva]
    exact d.signedValue_run v
  have hvalue : k.value v = (s, b.toInt) := by
    rw [← hvb]
    rfl
  have hstep := k.asSum_signed v
  rw [hvalue] at hstep
  obtain ⟨hsame, habs⟩ := apply_of_asSum hstep a.toInt
  refine ⟨(d.signed v).figure, (k.signed v).step.2, (k.signed v).step.1, ?_, hfirst, hsame, ?_⟩
  · show (if (operands lookup _).any isUnresolved then _ else settled (compute (operands lookup _))) = _
    rw [← Figure.compute_pair, ← hrow, operands_text hv, isUnresolved_texts]
    rfl
  · -- A factor keeps its sign; in a sum the sign is in the operator.
    by_cases hs : s = .times
    · have hfigure : (k.signed v).step.2.value = b.toInt := by
        rw [hs] at hstep
        exact value_of_asSum_times hstep
      rw [hfigure]
      exact iff_of_true (held_toInt b) (.inl hs)
    · have hplain : (k.signed v).step.2.value = (k.signed v).numeral.value := by
        have hposition : (k.signed v).position = .sum := if_neg hs
        unfold Signed.step
        rw [hposition]
        rfl
      have hvalue : (k.signed v).step.2.value = b.toInt.natAbs := by
        rw [hplain] at habs ⊢
        exact congrArg Nat.cast habs
      rw [hvalue, held_natAbs_iff]
      simp [hs]

theorem evaluate_pair {σ : Type} (env : Environment σ) (state : σ) :
    evaluate env (x ++ (before.1 ++ s.char :: (after.1 ++ y))) state =
      .done (fold (env.lookup state) (pair x y hx hy before after s).text) state := by
  have htext : (pair x y hx hy before after s).text = _ := text_pair
  rw [← htext]
  unfold evaluate
  rw [read_text]
  rfl

/-- **Operations on 64-bit numbers.**  Let two variables hold 64-bit numbers `a` and `b`, and let a plus, a minus or a
sign of multiplication stand between their names, with any blanks around it.  If the exact result is a 64-bit number,
the text is evaluated to this number; only where `b` is the least number, a sum or a difference is none the less a
float.  If the exact result is no 64-bit number, the value is a float.  Nothing is changed. -/
theorem evaluate_operation {σ : Type} (env : Environment σ) (state : σ) (x y : Text) (hx : Text.isName x = true)
    (hy : Text.isName y = true) (before after : Blanks) (s : Operator) (a b : Int64)
    (ha : env.lookup state (String.ofList x) = some (.int a)) (hb : env.lookup state (String.ofList y) = some (.int b)) :
    ∃ value : Value, evaluate env (x ++ (before.1 ++ s.char :: (after.1 ++ y))) state = .done value state ∧
      (s = .times ∨ b ≠ Int64.minValue → ∀ n : Int64, n.toInt = s.apply a.toInt b.toInt → value = .int n) ∧
      (s ≠ .times ∧ b = Int64.minValue ∨ (∀ n : Int64, n.toInt ≠ s.apply a.toInt b.toInt) →
        ∃ z, value = .float z) := by
  obtain ⟨f, g, t, hfold, hf, happly, hheld⟩ :=
    @fold_pair x y hx hy before after s (env.lookup state) a b ha hb
  refine ⟨settled (f.operation g t).resultText, ?_, ?_, ?_⟩
  · rw [← hfold]
    exact evaluate_pair env state
  · intro hfits n hn
    refine Figure.settled_resultText_of_held f g t (hf ▸ held_toInt a) (hheld.mpr hfits) ?_
    rw [hn, hf, happly]
  · intro hfails
    refine Figure.settled_resultText_of_not_held f g t fun hall => ?_
    rw [hf, happly] at hall
    obtain ⟨-, hg, n, hn⟩ := hall
    rcases hfails with ⟨hs, hb⟩ | hnone
    · exact (hheld.mp hg).elim hs fun hne => hne hb
    · exact hnone n hn

/-- The difference of minus one and the greatest number is the least number, and it is exact. -/
theorem evaluate_operation_greatest :
    let scope := (({} : Scope).set "x" (.int (-1))).set "y" (.int Int64.maxValue)
    Text.isName ['x'] = true ∧ Text.isName ['y'] = true ∧ Int64.maxValue ≠ Int64.minValue ∧
      evaluate Scope.environment "x - y".toList scope = .done (.int Int64.minValue) scope := by
  intro scope
  have hx : Scope.environment.lookup scope (String.ofList ['x']) = some (.int (-1)) := by decide
  have hy : Scope.environment.lookup scope (String.ofList ['y']) = some (.int Int64.maxValue) := by decide
  obtain ⟨value, hvalue, hexact, -⟩ := evaluate_operation Scope.environment scope ['x'] ['y'] rfl rfl Blanks.one
    Blanks.one .minus (-1) Int64.maxValue hx hy
  rw [hexact (.inr (by decide)) Int64.minValue (by decide)] at hvalue
  exact ⟨rfl, rfl, by decide, hvalue⟩

/-- The sum of nought and the least number is the least number, but the value of the text is a float. -/
theorem evaluate_sum_least :
    let scope := (({} : Scope).set "x" (.int 0)).set "y" (.int Int64.minValue)
    Int64.minValue.toInt = Operator.plus.apply (0 : Int64).toInt Int64.minValue.toInt ∧
      ∃ z, evaluate Scope.environment "x + y".toList scope = .done (.float z) scope := by
  intro scope
  have hx : Scope.environment.lookup scope (String.ofList ['x']) = some (.int 0) := by decide
  have hy : Scope.environment.lookup scope (String.ofList ['y']) = some (.int Int64.minValue) := by decide
  obtain ⟨f, g, t, hfold, -, -, hheld⟩ := @fold_pair ['x'] ['y'] rfl rfl Blanks.one Blanks.one .plus _ _ _ hx hy
  have hlost : ¬Held g.value := fun hg => by simpa using hheld.mp hg
  obtain ⟨z, hz⟩ := Figure.settled_resultText_of_not_held f g t fun hall => hlost hall.2.1
  have hvalue : evaluate Scope.environment "x + y".toList scope = _ :=
    @evaluate_pair ['x'] ['y'] rfl rfl Blanks.one Blanks.one .plus _ Scope.environment scope
  rw [hfold, hz] at hvalue
  exact ⟨by decide, z, hvalue⟩

end Calculation

end Flowchart.Arithmetic
