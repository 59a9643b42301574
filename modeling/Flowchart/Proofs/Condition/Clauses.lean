import Flowchart.Proofs.Condition.Comparisons

/-!
# Conditions over whole numbers

Comparisons of whole numbers are joined by connectives, put in parentheses and negated.  These are conditions that
do nothing but look at the numbers in the variables, and so they are as good as their truth values.

* `Clause`, `Clauses` — the conditions, with `Clauses.text` as they are written.
* `Clauses.Parted` — connectives and negations are kept apart from the names around them.
* `Clause.sound` — a clause is a text that the reader does not cut.
* **`Clauses.evaluates`** — a condition over whole numbers comes out as the conjunction of its groups, and changes
  nothing.
-/

namespace Flowchart

/-- What connectives join. -/
inductive Clause where
  | compared (c : Compared)
  /-- A condition in parentheses, with blanks inside them. -/
  | group (before : Blanks) (f : Chain Clause) (after : Blanks)
  /-- A negation, with blanks behind it. -/
  | negation (s : Negation) (gap : Blanks) (c : Clause)

/-- Clauses joined by connectives. -/
abbrev Clauses := Chain Clause

mutual

/-- A clause as it is written. -/
def Clause.text : Clause → Text
  | .compared c => c.text
  | .group before f after => Text.inParentheses (before.1 ++ (Clauses.texts f).text ++ after.1)
  | .negation s gap c => s.text ++ (gap.1 ++ c.text)

/-- The clauses of a condition as they are written. -/
def Clauses.texts : Chain Clause → Chain Text
  | .single c => .single c.text
  | .join c j rest => .join c.text j (Clauses.texts rest)

end

mutual

/-- All comparisons in a clause. -/
def Clause.comparisons : Clause → List Compared
  | .compared c => [c]
  | .group _ f _ => Clauses.comparisons f
  | .negation _ _ c => c.comparisons

/-- All comparisons in a condition. -/
def Clauses.comparisons : Chain Clause → List Compared
  | .single c => c.comparisons
  | .join c _ rest => c.comparisons ++ Clauses.comparisons rest

end

mutual

/-- Inside a clause, connectives and negations are no parts of longer names. -/
def Clause.Parted : Clause → Prop
  | .compared _ => True
  | .group _ f _ => Clauses.Parted f
  | .negation s gap c => Connective.Apart s.text (gap.1 ++ c.text) ∧ c.Parted

/-- In a condition, connectives and negations are no parts of longer names. -/
def Clauses.Parted : Chain Clause → Prop
  | .single c => c.Parted
  | .join c j rest => c.Parted ∧ j.Parts c.text (Clauses.texts rest).text ∧ Clauses.Parted rest

end

/-- The truth value of a chain: all of its groups hold, and of each group one operand. -/
def Chain.holds (c : Chain Bool) : Bool := c.groups.all fun group => group.any id

mutual

/-- Whether a clause holds for the numbers in the variables. -/
def Clause.holds (v : String → Int32) : Clause → Bool
  | .compared c => c.holds v
  | .group _ f _ => (Clauses.values v f).holds
  | .negation _ _ c => !c.holds v

/-- Which clauses of a condition hold. -/
def Clauses.values (v : String → Int32) : Chain Clause → Chain Bool
  | .single c => .single (c.holds v)
  | .join c j rest => .join (c.holds v) j (Clauses.values v rest)

end

namespace Clauses

/-- A condition as it is written. -/
def text (f : Clauses) : Text := (texts f).text

/-- Whether a condition holds for the numbers in the variables. -/
def holds (v : String → Int32) (f : Clauses) : Bool := (values v f).holds

/-- The variables in a condition. -/
def names (f : Clauses) : List String := (comparisons f).flatMap Compared.names

/-- All numerals are below `2 ^ 53`. -/
def Exact (f : Clauses) : Prop := ∀ c ∈ comparisons f, c.Exact

instance (f : Clauses) : Decidable f.Exact := inferInstanceAs (Decidable (∀ c ∈ comparisons f, c.Exact))

theorem parted_texts {f : Clauses} (h : Parted f) : (texts f).Parted := by
  induction f with
  | single c => exact trivial
  | join c j rest ih => exact ⟨h.2.1, ih h.2.2⟩

end Clauses

/-! ### Clauses are not cut -/

open Condition

/-- A character with which clauses begin. -/
def Clause.isStart (c : Char) : Bool := c == '-' || c == '(' || c == '!' || Text.isNamePart c

theorem Clause.isStart_iff {c : Char} :
    isStart c = true ↔ c = '-' ∨ c = '(' ∨ c = '!' ∨ Text.isNamePart c = true := by
  simp [isStart, or_assoc]

theorem Clause.isBlank_of_isStart {c : Char} (h : isStart c = true) : Text.isBlank c = false := by
  rcases isStart_iff.mp h with rfl | rfl | rfl | h
  · rfl
  · rfl
  · rfl
  · exact Term.isBlank_of_start (.inr h)

/-- A clause begins with a term, a parenthesis or a negation. -/
theorem Clause.head?_text (c : Clause) : ∃ d, c.text.head? = some d ∧ isStart d = true := by
  cases c with
  | compared c =>
    obtain ⟨d, w, hleft, hstart, -⟩ := c.text_eq_cons
    refine ⟨d, ?_, isStart_iff.mpr (hstart.imp_right fun h => .inr (.inr h))⟩
    show (c.left.text ++ _).head? = _
    rw [hleft]
    rfl
  | group before f after => exact ⟨'(', rfl, rfl⟩
  | negation s gap c =>
    cases s with
    | word => exact ⟨'N', rfl, rfl⟩
    | sign => exact ⟨'!', rfl, rfl⟩

/-- No equality sign stands behind a negation. -/
theorem Clause.head?_gap_ne (c : Clause) (gap : Blanks) : (gap.1 ++ c.text).head? ≠ some '=' := by
  obtain ⟨d, hd, hstart⟩ := c.head?_text
  refine Text.head?_blanks_ne rfl gap.2 ?_
  rw [hd]
  rintro ⟨⟩
  cases hstart

theorem Text.getLast?_inParentheses (t : Text) : (Text.inParentheses t).getLast? = some ')' := by
  unfold Text.inParentheses
  rw [List.getLast?_cons, List.getLast?_concat]
  rfl

/-- A clause ends with a term or a parenthesis. -/
theorem Clause.getLast?_text : ∀ c : Clause, ∃ d, c.text.getLast? = some d ∧ (d = ')' ∨ Text.isNamePart d = true)
  | .compared c => by
    obtain ⟨d, hd, hend⟩ := c.isNamePart_getLast?
    exact ⟨d, hd, .inr hend⟩
  | .group before f after => ⟨')', Text.getLast?_inParentheses _, .inl rfl⟩
  | .negation s gap c => by
    obtain ⟨d, hd, hend⟩ := Clause.getLast?_text c
    refine ⟨d, ?_, hend⟩
    show (s.text ++ (gap.1 ++ c.text)).getLast? = _
    simp [List.getLast?_append, hd]

/-- A negation ends as what is negated does. -/
theorem Clause.getLast?_negation (s : Negation) (gap : Blanks) (c : Clause) :
    (Clause.negation s gap c).text.getLast? = c.text.getLast? := by
  obtain ⟨d, hd, -⟩ := c.getLast?_text
  show (s.text ++ (gap.1 ++ c.text)).getLast? = _
  simp [List.getLast?_append, hd]

/-- A condition begins as its first clause does. -/
theorem Clauses.head?_text (f : Clauses) : ∃ d, f.text.head? = some d ∧ Clause.isStart d = true := by
  cases f with
  | single c => exact c.head?_text
  | join c j rest =>
    obtain ⟨d, hd, hstart⟩ := c.head?_text
    refine ⟨d, ?_, hstart⟩
    show (c.text ++ _).head? = _
    rw [List.head?_append, hd]
    rfl

/-- It ends as its last clause does. -/
theorem Clauses.getLast?_text (f : Clauses) :
    ∃ d, f.text.getLast? = some d ∧ (d = ')' ∨ Text.isNamePart d = true) := by
  induction f with
  | single c => exact c.getLast?_text
  | join c j rest ih =>
    obtain ⟨d, hd, hend⟩ := ih
    refine ⟨d, ?_, hend⟩
    show (c.text ++ (j.text ++ Clauses.text rest)).getLast? = _
    simp [List.getLast?_append, hd]

theorem Clauses.getLast?_join (c : Clause) (j : Joint) (rest : Chain Clause) :
    (Clauses.text (.join c j rest)).getLast? = (Clauses.text rest).getLast? := by
  obtain ⟨d, hd, -⟩ := Clauses.getLast?_text rest
  show (c.text ++ (j.text ++ Clauses.text rest)).getLast? = _
  simp [List.getLast?_append, hd]

mutual

/-- **The reader does not cut a clause**, nor its margins. -/
theorem Clause.sound : ∀ c : Clause, c.Parted → Unbroken c.text ∧ Tidy c.text
  | .compared c, _ => ⟨c.unbroken, c.tidy⟩
  | .group before f after, h => ⟨.enclosed (Clauses.closed before f after h), tidy_inParentheses _⟩
  | .negation s gap c, h => by
    obtain ⟨hunbroken, htidy⟩ := Clause.sound c h.2
    exact ⟨hunbroken.negated s gap.2 h.1, htidy.negated s gap.1⟩

theorem Clauses.sound : ∀ f : Chain Clause, Clauses.Parted f → (Clauses.texts f).Sound
  | .single c, h => by
    intro t ht
    rw [List.mem_singleton.mp ht]
    exact Clause.sound c h
  | .join c j rest, h => by
    intro t ht
    rcases List.mem_cons.mp ht with rfl | ht
    · exact Clause.sound c h.1
    · exact Clauses.sound rest h.2.2 t ht

/-- Nothing is left open in parentheses. -/
theorem Clauses.closed (before : Blanks) (f : Chain Clause) (after : Blanks) (h : Clauses.Parted f) :
    Nesting.through? {} (before.1 ++ (Clauses.texts f).text ++ after.1) = some {} := by
  have hclosed := (Clauses.sound f h).closed (Clauses.parted_texts h)
  rw [Nesting.through?_append, Nesting.through?_append, Nesting.through?_blanks before.2, Option.bind_some, hclosed,
    Option.bind_some, Nesting.through?_blanks after.2]

end

/-! ### Truth values -/

namespace Action

variable {σ α : Type} {s : σ}

/-- What an action comes to in a state. -/
def outcome (s : σ) (act : Action σ α) : Outcome σ α := act s

/-- A disjunction of actions that change nothing. -/
theorem anyOf_done {acts : List (Action σ Bool)} {bs : List Bool}
    (h : acts.map (outcome s) = bs.map fun b => Outcome.done b s) : anyOf acts s = .done (bs.any id) s := by
  induction bs generalizing acts with
  | nil =>
    rw [List.map_eq_nil_iff.mp h]
    rfl
  | cons b bs ih =>
    obtain ⟨act, rest, rfl, hact, hrest⟩ := List.map_eq_cons_iff.mp h
    rw [anyOf, bind_apply, show act s = _ from hact]
    cases b with
    | true => rfl
    | false => exact ih hrest

/-- A conjunction of actions that change nothing. -/
theorem allOf_done {acts : List (Action σ Bool)} {bs : List Bool}
    (h : acts.map (outcome s) = bs.map fun b => Outcome.done b s) : allOf acts s = .done (bs.all id) s := by
  induction bs generalizing acts with
  | nil =>
    rw [List.map_eq_nil_iff.mp h]
    rfl
  | cons b bs ih =>
    obtain ⟨act, rest, rfl, hact, hrest⟩ := List.map_eq_cons_iff.mp h
    rw [allOf, bind_apply, show act s = _ from hact]
    cases b with
    | true => exact ih hrest
    | false => rfl

end Action

/-- A chain of actions that change nothing. -/
theorem Chain.truth_done {σ : Type} {s : σ} {acts : Chain (Action σ Bool)} {bs : Chain Bool}
    (h : acts.map (Action.outcome s) = bs.map fun b => Outcome.done b s) : acts.truth s = .done bs.holds s := by
  have hgroups : acts.groups.map (List.map (Action.outcome s)) =
      bs.groups.map (List.map fun b => Outcome.done b s) := by
    rw [← groups_map, ← groups_map, h]
  have hany : ∀ (gs : List (List (Action σ Bool))) (hs : List (List Bool)),
      gs.map (List.map (Action.outcome s)) = hs.map (List.map fun b => Outcome.done b s) →
      (gs.map Action.anyOf).map (Action.outcome s) =
        (hs.map fun group => group.any id).map fun b => Outcome.done b s := by
    intro gs hs hgs
    induction hs generalizing gs with
    | nil =>
      rw [List.map_eq_nil_iff.mp hgs]
      rfl
    | cons group hs ih =>
      obtain ⟨acts, rest, rfl, hacts, hrest⟩ := List.map_eq_cons_iff.mp hgs
      simp only [List.map_cons, ih rest hrest]
      exact congrArg (· :: _) (Action.anyOf_done hacts)
  have htruth := Action.allOf_done (hany _ _ hgroups)
  rw [List.all_map] at htruth
  exact htruth

section

variable {σ : Type} {env : Environment σ} {s : σ} {v : String → Int32}

mutual

/-- **A clause comes out true or false**, by the numbers in its variables. -/
theorem Clause.evaluates : ∀ c : Clause, c.Parted → (∀ p ∈ c.comparisons, p.Exact) →
    (∀ p ∈ c.comparisons, ∀ name ∈ p.names, env.lookup s name = some (.int (v name).toInt64)) →
    evaluateCondition env c.text s = .done (c.holds v) s
  | .compared c, _, hexact, hv => c.evaluates (hexact c List.mem_cons_self) (hv c List.mem_cons_self)
  | .group before f after, h, hexact, hv => by
    have hsound := Clauses.sound f h
    have hmargins := hsound.tidy.question_margins before.2 after.2
    show evaluateCondition env (Text.inParentheses _) s = _
    rw [evaluateCondition_inParentheses env (Clauses.closed before f after h),
      evaluateCondition_congr env (hmargins.trans hsound.tidy.question_eq.symm),
      Chain.evaluateCondition_chain env hsound (Clauses.parted_texts h)]
    exact Chain.truth_done (Clauses.evaluates_texts f h hexact hv)
  | .negation n gap c, h, hexact, hv => by
    obtain ⟨hunbroken, htidy⟩ := Clause.sound c h.2
    have hquestion := (htidy.negated n gap.1).question_eq
    show evaluateCondition env (n.text ++ (gap.1 ++ c.text)) s = _
    rw [evaluateCondition_of_negated env (by rw [hquestion]; exact (hunbroken.negated n gap.2 h.1).uncut)
      (by rw [hquestion]; exact negated?_text n gap.2 htidy h.1 (c.head?_gap_ne gap)), Action.bind_apply,
      Clause.evaluates c h.2 hexact hv]
    rfl

theorem Clauses.evaluates_texts : ∀ f : Chain Clause, Clauses.Parted f → (∀ p ∈ Clauses.comparisons f, p.Exact) →
    (∀ p ∈ Clauses.comparisons f, ∀ name ∈ p.names, env.lookup s name = some (.int (v name).toInt64)) →
    ((Clauses.texts f).map (evaluateCondition env)).map (Action.outcome s) =
      (Clauses.values v f).map fun b => Outcome.done b s
  | .single c, h, hexact, hv => congrArg Chain.single (Clause.evaluates c h hexact hv)
  | .join c j rest, h, hexact, hv => by
    have hfirst := Clause.evaluates c h.1 (fun p hp => hexact p (List.mem_append_left _ hp))
      fun p hp => hv p (List.mem_append_left _ hp)
    have hrest := Clauses.evaluates_texts rest h.2.2 (fun p hp => hexact p (List.mem_append_right _ hp))
      fun p hp => hv p (List.mem_append_right _ hp)
    show Chain.join (evaluateCondition env c.text s) j _ = Chain.join _ j _
    rw [hfirst, hrest]

end

/-- **A condition over whole numbers** comes out as the conjunction of its groups, by the numbers in its variables, and
changes nothing. -/
theorem Clauses.evaluates {f : Clauses} (h : Parted f) (hexact : f.Exact)
    (hv : ∀ name ∈ f.names, env.lookup s name = some (.int (v name).toInt64)) :
    evaluateCondition env f.text s = .done (f.holds v) s := by
  unfold text
  rw [Chain.evaluateCondition_chain env (sound f h) (parted_texts h)]
  exact Chain.truth_done (evaluates_texts f h hexact fun p hp name hname =>
    hv name (List.mem_flatMap.mpr ⟨p, hp, hname⟩))

end

end Flowchart
