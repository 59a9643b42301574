import Flowchart.Proofs.Condition.Respelling
import Flowchart.Proofs.Text.Quotations

/-!
# Comparisons of string literals

Two strings in quotation marks are compared.  No connective, negation or parenthesis in the strings counts, as the
reader of connectives keeps out of quotations.  The reader of comparisons does not: it cuts at the first sign of
comparison, wherever that stands.

* `Condition.ofLiterals` — two quotations with a sign of comparison between them.
* `Condition.Unbroken.inQuotes` — there is no connective in a quotation.
* `comparison?_append` — text without signs of comparison is passed.
* `comparison?_of_sign` — a sign is found no later than it stands.
* `evaluateCondition_ofLiterals` — if there is no sign in the left string, the strings are compared.
* `evaluateCondition_ofLiterals_torn` — if there is one, the condition has no value.
* **`evaluateCondition_literals`** — equality of string literals.
-/

namespace Flowchart

/-- A sign of comparison by itself, or the first character of a longer one. -/
def Comparator.isSign (c : Char) : Bool := c == '<' || c == '>' || c == '='

theorem Comparator.isSign_iff {c : Char} : isSign c = true ↔ c = '<' ∨ c = '>' ∨ c = '=' := by
  simp [isSign, or_assoc]

/-- Two quotations with a sign of comparison between them, and a blank on either side of it. -/
def Condition.ofLiterals (c : Comparator) (a b : Text) : Text :=
  Text.inQuotes a ++ ([' '] ++ (c.sign false ++ ([' '] ++ Text.inQuotes b)))

/-! ### Connectives in quotations -/

theorem Connective.splitFrom?_quoted (k : Connective) {before : Option Char} {a : Text} (ha : '"' ∉ a) :
    k.splitFrom? before { quoted := true } (a ++ ['"']) = none := by
  induction a generalizing before with
  | nil => rfl
  | cons c a ih =>
    rw [List.mem_cons, not_or] at ha
    rw [List.cons_append, splitFrom?_cons_of_covered (by simp [Nesting.isTop]), Nesting.next, if_neg (Ne.symm ha.1),
      if_pos rfl, ih ha.2]
    rfl

/-- **There is no connective in a quotation.** -/
theorem Condition.Unbroken.inQuotes {a : Text} (ha : '"' ∉ a) : Unbroken (Text.inQuotes a) where
  closed := Nesting.through?_quoted ha []
  uncut k := by
    unfold Connective.split? Text.inQuotes
    rw [Connective.splitFrom?_cons_of_covered rfl]
    show Option.map _ (k.splitFrom? _ { quoted := true } _) = none
    rw [k.splitFrom?_quoted ha]
    rfl

theorem Condition.Tidy.inQuotes (a : Text) : Tidy (Text.inQuotes a) where
  ne_nil := List.cons_ne_nil _ _
  first := by
    rintro _ ⟨⟩
    rfl
  last := by
    rw [Text.getLast?_inQuotes]
    rintro _ ⟨⟩
    rfl
  unasked := by
    rw [Text.getLast?_inQuotes]
    decide

namespace Condition

variable (c : Comparator) {a b : Text}

theorem tidy_ofLiterals (a b : Text) : Tidy (ofLiterals c a b) := by
  have htidy := (Tidy.inQuotes a).append (.inQuotes b) ([' '] ++ (c.sign false ++ [' ']))
  simpa [ofLiterals] using htidy

theorem unbroken_ofLiterals (ha : '"' ∉ a) (hb : '"' ∉ b) : Unbroken (ofLiterals c a b) := by
  have hquote : ∀ (u r : Text), Connective.Apart (Text.inQuotes u) r := fun u r =>
    .inl (by rw [Text.getLast?_inQuotes]; rfl)
  have hsign : ∀ r, Connective.Apart (c.sign false) r := fun r => .inl (by cases c <;> rfl)
  have hright : Unbroken ([' '] ++ Text.inQuotes b) :=
    (Unbroken.blanks .one).append (.inQuotes hb) (Connective.apart_blanks .one _)
  have hmiddle : Unbroken (c.sign false ++ ([' '] ++ Text.inQuotes b)) :=
    (Unbroken.sign c false).append hright (hsign _)
  have hlater : Unbroken ([' '] ++ (c.sign false ++ ([' '] ++ Text.inQuotes b))) :=
    (Unbroken.blanks .one).append hmiddle (Connective.apart_blanks .one _)
  exact (Unbroken.inQuotes ha).append hlater (hquote a _)

/-- Nothing but a comparison or a value can be read in a comparison of literals. -/
theorem evaluateCondition_ofLiterals_eq {σ : Type} (env : Environment σ) (ha : '"' ∉ a) (hb : '"' ∉ b) :
    evaluateCondition env (ofLiterals c a b) = (readAtom (ofLiterals c a b)).eval env := by
  have hquestion : question (ofLiterals c a b) = ofLiterals c a b := (tidy_ofLiterals c a b).question_eq
  have hread := evaluateCondition_of_readAtom env (t := ofLiterals c a b)
    (by rw [hquestion]; exact (unbroken_ofLiterals c ha hb).uncut)
    (by rw [hquestion]; exact negated?_of_head (by decide) (by decide)) (by rw [hquestion]; rfl)
  rwa [hquestion] at hread

end Condition

/-! ### Signs of comparison -/

theorem Comparator.comparatorAt?_eq_none {c : Char} {t : Text} (hc : isSign c = false)
    (hbang : c = '!' → t.head? ≠ some '=') : comparatorAt? (c :: t) = none := by
  have hne : c ≠ '<' ∧ c ≠ '>' ∧ c ≠ '=' := by
    refine ⟨?_, ?_, ?_⟩ <;> rintro rfl <;> exact absurd hc (by decide)
  have hunequal : Text.after? ['!', '='] (c :: t) = none := by
    by_cases hc' : c = '!'
    · cases t with
      | nil => simp [Text.after?]
      | cons d t =>
        have hd : '=' ≠ d := fun hd => hbang hc' (by rw [hd]; rfl)
        simp [Text.after?, hd]
    · exact if_neg (Ne.symm hc')
  have hno : ∀ d rest, d = '<' ∨ d = '>' ∨ d = '=' → Text.after? (d :: rest) (c :: t) = none := by
    rintro d rest (rfl | rfl | rfl)
    · exact if_neg (Ne.symm hne.1)
    · exact if_neg (Ne.symm hne.2.1)
    · exact if_neg (Ne.symm hne.2.2)
  simp [comparatorAt?, signs, List.findSome?, hunequal, hno]

/-- No sign is found in a text without signs, up to a character that belongs to none. -/
theorem comparatorAt?_append {u : Text} {d : Char} (hu : ∀ c ∈ u, Comparator.isSign c = false)
    (hd : Comparator.isSign d = false) (hbang : d ≠ '!') (hblank : Text.isBlank d = false) (r : Text) :
    comparatorAt? (Text.trimStart (u ++ d :: r)) = none := by
  induction u with
  | nil =>
    have hkeep : Text.trimStart (d :: r) = d :: r := List.dropWhile_cons_of_neg (by rw [hblank]; decide)
    rw [List.nil_append, hkeep]
    exact Comparator.comparatorAt?_eq_none hd fun h => absurd h hbang
  | cons c u ih =>
    have hrest : ∀ b ∈ u, Comparator.isSign b = false := fun b hb => hu b (List.mem_cons_of_mem c hb)
    cases hc : Text.isBlank c with
    | true => exact (congrArg comparatorAt? (List.dropWhile_cons_of_pos hc)).trans (ih hrest)
    | false =>
      have hkeep : Text.trimStart (c :: (u ++ d :: r)) = c :: (u ++ d :: r) :=
        List.dropWhile_cons_of_neg (by rw [hc]; decide)
      rw [List.cons_append, hkeep]
      refine Comparator.comparatorAt?_eq_none (hu c List.mem_cons_self) fun _ hhead => ?_
      -- What stands behind `!` is no sign either.
      have hnext : ∀ b ∈ (u ++ d :: r).head?, Comparator.isSign b = false := by
        refine Text.forall_head?_append hrest ?_
        rintro _ ⟨⟩
        exact hd
      exact absurd (hnext _ hhead) (by decide)

/-- **Text without signs of comparison is passed.** -/
theorem comparison?_append {u : Text} {d : Char} (hline : '\n' ∉ u) (hu : ∀ c ∈ u, Comparator.isSign c = false)
    (hd : Comparator.isSign d = false) (hbang : d ≠ '!') (hblank : Text.isBlank d = false) (r : Text) :
    comparison? (u ++ d :: r) = (comparison? (d :: r)).map fun p => { p with left := u ++ p.left } := by
  induction u with
  | nil => simp
  | cons c u ih =>
    rw [List.mem_cons, not_or] at hline
    have hrest : ∀ b ∈ u, Comparator.isSign b = false := fun b hb => hu b (List.mem_cons_of_mem c hb)
    rw [List.cons_append, comparison?, if_neg (Ne.symm hline.1), comparatorAt?_append hrest hd hbang hblank,
      ih hline.2 hrest, Option.map_map]
    rfl

/-- There is something to be read behind a sign. -/
theorem rightSide?_isSome {r : Text} (hline : '\n' ∉ r) (hr : '"' ∈ r) : (rightSide? r).isSome = true := by
  have hside : Text.trimStart r <:+ r := List.dropWhile_suffix _
  have hmem : '"' ∈ Text.trimStart r := Text.mem_trimStart hr rfl
  have hempty : (Text.trimStart r).isEmpty = false := by
    cases h : Text.trimStart r with
    | nil =>
      rw [h] at hmem
      exact absurd hmem List.not_mem_nil
    | cons c u => rfl
  have hbreak : (Text.trimStart r).contains '\n' = false := by
    have hnot : '\n' ∉ Text.trimStart r := fun hmem => hline (hside.subset hmem)
    simpa using hnot
  unfold rightSide?
  dsimp only
  rw [hempty, hbreak]
  rfl

theorem Comparator.comparatorAt?_isSome {c : Char} {r : Text} (hc : isSign c = true) (hline : '\n' ∉ r) (hr : '"' ∈ r) :
    (comparatorAt? (c :: r)).isSome = true := by
  obtain ⟨side, hside⟩ := Option.isSome_iff_exists.mp (rightSide?_isSome hline hr)
  have hfound : ∃ k : Comparator, ([c], k) ∈ signs := by
    rcases isSign_iff.mp hc with rfl | rfl | rfl
    · exact ⟨.less, by decide⟩
    · exact ⟨.greater, by decide⟩
    · exact ⟨.equal, by decide⟩
  obtain ⟨k, hk⟩ := hfound
  have hafter : Text.after? [c] (c :: r) = some r := Text.after?_eq_some_iff.mpr rfl
  rw [comparatorAt?, List.findSome?_isSome_iff]
  exact ⟨([c], k), hk, by rw [hafter, Option.bind_some, hside]; rfl⟩

/-- **A sign of comparison is found no later than it stands**: the left side ends in front of it. -/
theorem comparison?_of_sign {d c : Char} {w r : Text} (hd : d ≠ '\n') (hw : '\n' ∉ w) (hc : Comparator.isSign c = true)
    (hline : '\n' ∉ r) (hr : '"' ∈ r) :
    ∃ u comparator side, comparison? (d :: (w ++ c :: r)) = some ⟨d :: u, comparator, side⟩ ∧ u <+: w := by
  induction w generalizing d with
  | nil =>
    have hkeep : Text.trimStart (c :: r) = c :: r := by
      refine List.dropWhile_cons_of_neg ?_
      rcases Comparator.isSign_iff.mp hc with rfl | rfl | rfl <;> decide
    obtain ⟨⟨comparator, side⟩, hat⟩ := Option.isSome_iff_exists.mp (Comparator.comparatorAt?_isSome hc hline hr)
    refine ⟨[], comparator, side, ?_, List.prefix_refl _⟩
    rw [comparison?, if_neg hd, List.nil_append, hkeep, hat]
  | cons e w ih =>
    rw [List.mem_cons, not_or] at hw
    cases hat : comparatorAt? (Text.trimStart (e :: (w ++ c :: r))) with
    | some found =>
      refine ⟨[], found.1, found.2, ?_, List.nil_prefix⟩
      rw [comparison?, if_neg hd, List.cons_append, hat]
    | none =>
      obtain ⟨u, comparator, side, hcut, hinitial⟩ := ih (Ne.symm hw.1) hw.2
      refine ⟨e :: u, comparator, side, ?_, (List.prefix_cons_inj e).mpr hinitial⟩
      rw [comparison?, if_neg hd, List.cons_append, hat]
      dsimp only
      rw [hcut]
      rfl

/-! ### Literals -/

section

variable {σ : Type} (env : Environment σ) (s : σ) (c : Comparator) {a b : Text}

/-- A comparison of literals without a sign in the left one is cut between them. -/
theorem comparison?_ofLiterals (hline : '\n' ∉ a) (hline' : '\n' ∉ b) (ha : ∀ d ∈ a, Comparator.isSign d = false) :
    comparison? (Condition.ofLiterals c a b) = some ⟨Text.inQuotes a, c, Text.inQuotes b⟩ := by
  have hside : rightSide? ([' '] ++ Text.inQuotes b) = some (Text.inQuotes b) := by
    have hbreak : (Text.inQuotes b).contains '\n' = false := by simp [Text.inQuotes, hline']
    show (if (Text.inQuotes b).isEmpty || (Text.inQuotes b).contains '\n' then none else some (Text.inQuotes b)) = _
    rw [hbreak]
    rfl
  have hcut : comparison? ('"' :: ([' '] ++ (c.sign false ++ ([' '] ++ Text.inQuotes b)))) =
      some ⟨['"'], c, Text.inQuotes b⟩ :=
    comparison?_text (w := []) (m := [' ']) c false (by decide) (by simp) Blanks.isBlank_of_mem_one (by rintro ⟨⟩) hside
  have hopen : ∀ d ∈ '"' :: a, Comparator.isSign d = false := List.forall_mem_cons.mpr ⟨rfl, ha⟩
  have hsplit : Condition.ofLiterals c a b =
      ('"' :: a) ++ '"' :: ([' '] ++ (c.sign false ++ ([' '] ++ Text.inQuotes b))) := by
    simp [Condition.ofLiterals, Text.inQuotes]
  rw [hsplit, comparison?_append (by simp [hline]) hopen rfl (by decide) rfl, hcut]
  rfl

/-- **Literals are compared as strings** if no sign of comparison stands in the left one. -/
theorem evaluateCondition_ofLiterals (hquote : '"' ∉ a) (hquote' : '"' ∉ b) (hline : '\n' ∉ a) (hline' : '\n' ∉ b)
    (ha : ∀ d ∈ a, Comparator.isSign d = false) :
    evaluateCondition env (Condition.ofLiterals c a b) s = .done (c.ofTexts a b) s := by
  have hleft := evaluate_inQuotes env s a
  have hright := evaluate_inQuotes env s b
  unfold evaluate at hleft hright
  have htexts : c.holds (.text (String.ofList a)) (.text (String.ofList b)) = c.ofTexts a b := by
    show c.ofTexts (String.ofList a).toList (String.ofList b).toList = _
    rw [String.toList_ofList, String.toList_ofList]
  rw [Condition.evaluateCondition_ofLiterals_eq c env hquote hquote', Condition.readAtom,
    comparison?_ofLiterals c hline hline' ha]
  simp only [Condition.eval, Action.bind_apply, hleft, hright, Outcome.andThen, Action.pure_apply, htexts]

/-- **A literal with a sign of comparison is torn** if it stands on the left: what is left of it has no value. -/
theorem evaluateCondition_ofLiterals_torn (hquote : '"' ∉ a) (hquote' : '"' ∉ b) (hline : '\n' ∉ a) (hline' : '\n' ∉ b)
    (ha : ∃ d ∈ a, Comparator.isSign d = true) :
    ∃ name, evaluateCondition env (Condition.ofLiterals c a b) s = .failed (.undefinedVariable name) s := by
  obtain ⟨d, hmem, hd⟩ := ha
  obtain ⟨w, v, rfl⟩ := List.append_of_mem hmem
  rw [List.mem_append, List.mem_cons, not_or, not_or] at hline
  have hbreak : '\n' ∉ v ++ '"' :: ([' '] ++ (c.sign false ++ ([' '] ++ Text.inQuotes b))) := by
    have hsign : '\n' ∉ c.sign false := by cases c <;> decide
    simp [hline, hline', hsign, Text.inQuotes]
  obtain ⟨u, comparator, side, hcut, hinitial⟩ :=
    comparison?_of_sign (d := '"') (by decide) hline.1 hd hbreak (by simp)
  have hu : '"' ∉ u := fun hmem => hquote (List.mem_append_left _ (hinitial.subset hmem))
  obtain ⟨name, hleft⟩ := evaluate_open env s hu
  unfold evaluate at hleft
  have hsplit : Condition.ofLiterals c (w ++ d :: v) b =
      '"' :: (w ++ d :: (v ++ '"' :: ([' '] ++ (c.sign false ++ ([' '] ++ Text.inQuotes b))))) := by
    simp [Condition.ofLiterals, Text.inQuotes]
  refine ⟨name, ?_⟩
  rw [Condition.evaluateCondition_ofLiterals_eq c env hquote hquote', Condition.readAtom, hsplit, hcut]
  simp only [Condition.eval, Action.bind_apply, hleft, Outcome.andThen]

end

/-- **Equality of string literals.**  Let two strings without quotation marks and line ends stand in quotation marks on
the sides of `==` or `!=`.  If there is none of the signs `<`, `>` and `=` in the left string, then the condition holds
exactly if the strings are equal or are not, whatever else stands in either of them, and nothing changes.  If there is
such a sign in the left string, then neither condition has a value. -/
theorem evaluateCondition_literals {σ : Type} (env : Environment σ) (s : σ) (a b : Text) (hquote : '"' ∉ a)
    (hquote' : '"' ∉ b) (hline : '\n' ∉ a) (hline' : '\n' ∉ b) :
    ((∀ c ∈ a, Comparator.isSign c = false) →
        evaluateCondition env (Condition.ofLiterals .equal a b) s = .done (decide (a = b)) s ∧
        evaluateCondition env (Condition.ofLiterals .unequal a b) s = .done (decide (a ≠ b)) s) ∧
      ((∃ c ∈ a, Comparator.isSign c = true) →
        (∃ name, evaluateCondition env (Condition.ofLiterals .equal a b) s = .failed (.undefinedVariable name) s) ∧
        ∃ name, evaluateCondition env (Condition.ofLiterals .unequal a b) s = .failed (.undefinedVariable name) s) := by
  constructor
  · intro ha
    have hequal := evaluateCondition_ofLiterals env s .equal hquote hquote' hline hline' ha
    have hunequal := evaluateCondition_ofLiterals env s .unequal hquote hquote' hline hline' ha
    rw [hequal, hunequal, Comparator.ofTexts, Comparator.ofTexts]
    by_cases hab : a = b <;> simp [hab]
  · intro ha
    exact ⟨evaluateCondition_ofLiterals_torn env s .equal hquote hquote' hline hline' ha,
      evaluateCondition_ofLiterals_torn env s .unequal hquote hquote' hline hline' ha⟩

/-- Connectives, a parenthesis, a negation and a question mark in the strings, and a sign of comparison in the right
one: they are compared as strings.  With the sign in the left one, nothing is compared. -/
theorem evaluateCondition_literals_inert :
    evaluateCondition Scope.environment (Condition.ofLiterals .equal "!(a OR b?".toList "!(a OR b?".toList) {} =
        .done true {} ∧
      evaluateCondition Scope.environment (Condition.ofLiterals .unequal "!(a OR b?".toList "a && b>c".toList) {} =
        .done true {} ∧
      ∃ name, evaluateCondition Scope.environment (Condition.ofLiterals .equal "a && b>c".toList "a && b>c".toList) {} =
        .failed (.undefinedVariable name) {} := by
  have hcalm : ∀ c ∈ "!(a OR b?".toList, Comparator.isSign c = false := by simp [Comparator.isSign]
  have hsign : ∃ c ∈ "a && b>c".toList, Comparator.isSign c = true := ⟨'>', by decide, rfl⟩
  have hsame := evaluateCondition_literals Scope.environment {} "!(a OR b?".toList "!(a OR b?".toList (by decide)
    (by decide) (by decide) (by decide)
  have hother := evaluateCondition_literals Scope.environment {} "!(a OR b?".toList "a && b>c".toList (by decide)
    (by decide) (by decide) (by decide)
  have htorn := evaluateCondition_literals Scope.environment {} "a && b>c".toList "a && b>c".toList (by decide)
    (by decide) (by decide) (by decide)
  exact ⟨(hsame.1 hcalm).1, (hother.1 hcalm).2, (htorn.2 hsign).1⟩

/-- A literal that is not found equal to itself, and an equality that is not symmetric. -/
theorem evaluateCondition_equal_torn :
    (∃ name, evaluateCondition Scope.environment "\"a=b\" == \"a=b\"".toList {} =
        .failed (.undefinedVariable name) {}) ∧
      evaluateCondition Scope.environment "\"a\" == \"a=b\"".toList {} = .done false {} ∧
      ∃ name, evaluateCondition Scope.environment "\"a=b\" == \"a\"".toList {} =
        .failed (.undefinedVariable name) {} := by
  have hsign : ∃ c ∈ "a=b".toList, Comparator.isSign c = true := ⟨'=', by decide, rfl⟩
  have htorn : ∀ b : Text, '"' ∉ b → '\n' ∉ b → ∃ name,
      evaluateCondition Scope.environment (Condition.ofLiterals .equal "a=b".toList b) {} =
        .failed (.undefinedVariable name) {} := fun b hb hb' =>
    evaluateCondition_ofLiterals_torn _ _ .equal (by decide) hb (by decide) hb' hsign
  have hwhole : evaluateCondition Scope.environment (Condition.ofLiterals .equal "a".toList "a=b".toList) {} =
      .done false {} :=
    evaluateCondition_ofLiterals _ _ .equal (by decide) (by decide) (by decide) (by decide)
      (by simp [Comparator.isSign])
  exact ⟨htorn "a=b".toList (by decide) (by decide), hwhole, htorn "a".toList (by decide) (by decide)⟩

end Flowchart
