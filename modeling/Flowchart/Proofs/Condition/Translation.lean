import Flowchart.Proofs.Condition.Grouping

/-!
# When conditions and their translations agree

The reader of conditions cuts at every *and* first, and negates everything up to the next connective.  C has another
precedence.  A condition and its translation agree where it makes no difference.

* `C.Expr.holds_and` and the equations beside it — when expressions of C count as true.
* `Chain.holds_of_and`, `Chain.grouped_of_and`, and the same for *or* — chains with connectives of one sort.
* `Clauses.Definite` — conditions in which it makes no difference which operators bind more tightly.
* `Clauses.holds_expr` — these hold in C if they hold.
* **`Clauses.condition_agrees`** — what a condition and its translation come out as, and that it is the same for such
  conditions; `Clauses.condition_disagrees_mixed` is a condition of which it is not.
-/

namespace Flowchart

/-! ### Truth values in C -/

namespace C.Expr

variable (v : String → Int32)

theorem holds_ofBool (b : Bool) : (ofBool b != 0) = b := by
  cases b <;> rfl

theorem holds_compared (k : Comparator) (a b : Expr) :
    (binary (.compared k) a b).holds v = k.ofInts (a.value v) (b.value v) := holds_ofBool _

theorem holds_and (a b : Expr) : (binary (.joined .and) a b).holds v = (a.holds v && b.holds v) := holds_ofBool _

theorem holds_or (a b : Expr) : (binary (.joined .or) a b).holds v = (a.holds v || b.holds v) := holds_ofBool _

theorem holds_not (e : Expr) : (not e).holds v = !e.holds v := by
  refine (holds_ofBool _).trans ?_
  unfold holds
  cases h : e.value v == 0 <;> simp_all

end C.Expr

theorem Term.value_expr (v : String → Int32) (t : Term) : t.expr.value v = t.value v := by
  cases t with
  | named x => rfl
  | numeral negative n => cases negative <;> rfl

/-- The connectives of a chain. -/
def Chain.connectives {α : Type} : Chain α → List Connective
  | single _ => []
  | join _ j rest => j.connective :: rest.connectives

namespace Chain

variable {v : String → Int32} {c : Chain C.Expr} {b : Chain Bool}

/-- A chain of *and*s holds if all of it does. -/
theorem holds_of_and (h : ∀ k ∈ b.connectives, k = .and) : b.holds = b.toList.all id := by
  induction b with
  | single b => simp [holds, groups, toList]
  | join b j rest ih =>
    have hrest := ih fun k hk => h k (List.mem_cons_of_mem _ hk)
    unfold holds at hrest ⊢
    rw [groups_join_and b rest (h _ List.mem_cons_self)]
    simp [hrest, toList]

/-- A chain of *or*s holds if some of it does. -/
theorem holds_of_or (h : ∀ k ∈ b.connectives, k = .or) : b.holds = b.toList.any id := by
  have hgroups : b.groups = [b.toList] := by
    induction b with
    | single b => rfl
    | join b j rest ih =>
      exact groups_join_or b (h _ List.mem_cons_self) (ih fun k hk => h k (List.mem_cons_of_mem _ hk))
  simp [holds, hgroups]

/-- In C as well. -/
theorem grouped_of_and (h : ∀ k ∈ c.connectives, k = .and) (operands : Option C.Expr) :
    (c.grouped none operands).holds v = (operands.all (·.holds v) && c.toList.all (·.holds v)) := by
  induction c generalizing operands with
  | single e => cases operands <;> simp [grouped, C.Expr.after, C.Expr.holds_and, toList]
  | join e j rest ih =>
    have hj : j.connective = .and := h _ List.mem_cons_self
    unfold grouped
    rw [hj]
    dsimp only
    rw [ih fun k hk => h k (List.mem_cons_of_mem _ hk)]
    cases operands <;> simp [C.Expr.after, C.Expr.holds_and, toList, Bool.and_assoc]

theorem grouped_of_or (h : ∀ k ∈ c.connectives, k = .or) (alternatives : Option C.Expr) :
    (c.grouped alternatives none).holds v = (alternatives.any (·.holds v) || c.toList.any (·.holds v)) := by
  induction c generalizing alternatives with
  | single e => cases alternatives <;> simp [grouped, C.Expr.after, C.Expr.holds_or, toList]
  | join e j rest ih =>
    have hj : j.connective = .or := h _ List.mem_cons_self
    unfold grouped
    rw [hj]
    dsimp only
    rw [ih fun k hk => h k (List.mem_cons_of_mem _ hk)]
    cases alternatives <;> simp [C.Expr.after, C.Expr.holds_or, toList, Bool.or_assoc]

end Chain

mutual

/-- In a clause it makes no difference which operators bind more tightly: no chain has connectives of both sorts, and
no comparison is negated. -/
def Clause.Definite : Clause → Prop
  | .compared _ => True
  | .group _ f _ => Clauses.Definite f
  | .negation _ _ c => c.behind = none ∧ c.Definite

/-- In a condition it makes no difference which operators bind more tightly. -/
def Clauses.Definite : Chain Clause → Prop
  | .single c => c.Definite
  | .join c j rest => c.Definite ∧ (∀ k ∈ rest.connectives, k = j.connective) ∧ Clauses.Definite rest

end

mutual

def Clause.decidableDefinite : (c : Clause) → Decidable c.Definite
  | .compared _ => .isTrue trivial
  | .group _ f _ => Clauses.decidableDefinite f
  | .negation _ _ c =>
    have := c.decidableDefinite
    inferInstanceAs (Decidable (c.behind = none ∧ c.Definite))

def Clauses.decidableDefinite : (f : Chain Clause) → Decidable (Clauses.Definite f)
  | .single c => c.decidableDefinite
  | .join c j rest =>
    have := c.decidableDefinite
    have := Clauses.decidableDefinite rest
    inferInstanceAs (Decidable (_ ∧ (∀ k ∈ rest.connectives, k = j.connective) ∧ _))

end

instance (f : Clauses) : Decidable (Clauses.Definite f) := Clauses.decidableDefinite f

theorem Clauses.values_eq_map (v : String → Int32) (f : Chain Clause) : values v f = f.map (Clause.holds v) := by
  induction f with
  | single c => rfl
  | join c j rest ih => exact congrArg (Chain.join _ j) ih

theorem Clauses.exprs_eq_map (f : Chain Clause) : exprs f = f.map Clause.expr := by
  induction f with
  | single c => rfl
  | join c j rest ih => exact congrArg (Chain.join _ j) ih

theorem Chain.connectives_map {α β : Type} (g : α → β) (c : Chain α) : (c.map g).connectives = c.connectives := by
  induction c with
  | single a => rfl
  | join a j rest ih => exact congrArg (j.connective :: ·) ih

/-- A chain with connectives of one sort holds in C if it holds. -/
theorem Clauses.holds_expr_of_clauses {v : String → Int32} {f : Clauses} {k : Connective}
    (hk : ∀ k' ∈ f.connectives, k' = k) (h : ∀ c ∈ f.toList, c.expr.holds v = c.holds v) :
    f.expr.holds v = f.holds v := by
  unfold expr holds
  rw [exprs_eq_map, values_eq_map]
  cases k with
  | and =>
    rw [Chain.grouped_of_and (by rwa [Chain.connectives_map]), Chain.holds_of_and (by rwa [Chain.connectives_map]),
      Chain.toList_map, Chain.toList_map, Bool.eq_iff_iff]
    simp only [Option.all_none, Bool.true_and, List.all_map, List.all_eq_true, Function.comp_apply, id_eq]
    exact forall₂_congr fun c hc => by rw [h c hc]
  | or =>
    rw [Chain.grouped_of_or (by rwa [Chain.connectives_map]), Chain.holds_of_or (by rwa [Chain.connectives_map]),
      Chain.toList_map, Chain.toList_map, Bool.eq_iff_iff]
    simp only [Option.any_none, Bool.false_or, List.any_map, List.any_eq_true, Function.comp_apply, id_eq]
    exact exists_congr fun c => and_congr_right fun hc => by rw [h c hc]

theorem Clauses.Definite.exists_connective {f : Clauses} (h : Definite f) : ∃ k, ∀ k' ∈ f.connectives, k' = k := by
  cases f with
  | single c => exact ⟨.and, fun k hk => by cases hk⟩
  | join c j rest => exact ⟨j.connective, List.forall_mem_cons.mpr ⟨rfl, h.2.1⟩⟩

mutual

/-- **A definite clause** holds in C if it holds. -/
theorem Clause.holds_expr (v : String → Int32) : ∀ c : Clause, c.Definite → c.expr.holds v = c.holds v
  | .compared c, _ => by
    show (C.Expr.binary (.compared c.comparator) c.left.expr c.right.expr).holds v = _
    rw [C.Expr.holds_compared, Term.value_expr, Term.value_expr]
    rfl
  | .group m f m', h => by
    obtain ⟨k, hk⟩ := Clauses.Definite.exists_connective h
    exact Clauses.holds_expr_of_clauses hk (Clauses.holds_exprs v f h)
  | .negation s gap c, h => by
    obtain ⟨hbehind, hc⟩ := h
    have hinside := Clause.holds_expr v c hc
    unfold Clause.expr at hinside
    rw [hbehind] at hinside
    show (C.Expr.comparedWith (.not c.unary) c.behind).holds v = !c.holds v
    rw [hbehind, ← hinside]
    exact C.Expr.holds_not v c.unary

/-- So do all clauses of a definite condition. -/
theorem Clauses.holds_exprs (v : String → Int32) : ∀ f : Chain Clause, Clauses.Definite f →
    ∀ c ∈ f.toList, c.expr.holds v = c.holds v
  | .single c, h => by
    intro d hd
    rw [List.mem_singleton.mp hd]
    exact Clause.holds_expr v c h
  | .join c j rest, h => by
    intro d hd
    rcases List.mem_cons.mp hd with heq | hd
    · rw [heq]
      exact Clause.holds_expr v c h.1
    · exact Clauses.holds_exprs v rest h.2.2 d hd

end

/-- **A definite condition** holds in C if it holds. -/
theorem Clauses.holds_expr (v : String → Int32) {f : Clauses} (h : Definite f) : f.expr.holds v = f.holds v := by
  obtain ⟨k, hk⟩ := h.exists_connective
  exact holds_expr_of_clauses hk (holds_exprs v f h)

/-! ### Agreement -/

/-- **Conditions and their translations.**  Take any condition over whole numbers, with any blanks that are white space
in C, names that are not reserved there and numerals below `2 ^ 53` that do not begin with a nought.  The reader makes
the conjunction of its groups of it; C reads its translation, and groups it by its own precedence.  If no chain of the
condition has connectives of both sorts, and nothing is negated but what is in parentheses or negated itself, then
both are true for the same numbers. -/
theorem Clauses.condition_agrees {f : Clauses} (h : Parted f) (hplain : Plain f) (hread : f.Readable) (hexact : f.Exact)
    {t : Text} (ht : Condition.question t = f.text) {σ : Type} (env : Environment σ) (s : σ) (v : String → Int32)
    (hv : ∀ name ∈ f.names, env.lookup s name = some (.int (v name).toInt64)) :
    evaluateCondition env t s = .done (f.holds v) s ∧
      C.read? (Code.condition t) = some f.expr ∧ (Definite f → f.expr.holds v = f.holds v) := by
  have htidy : Condition.question f.text = f.text := (sound f h).tidy.question_eq
  refine ⟨?_, read?_condition h hplain hread hexact ht, holds_expr v⟩
  rw [evaluateCondition_congr env (ht.trans htidy.symm)]
  exact evaluates h hexact hv

/-- Variables that hold numbers, and no function. -/
def Environment.ofNumbers (v : String → Int32) : Environment Unit where
  lookup _ name := some (.int (v name).toInt64)
  call name _ := .fail (.unknownFunction name)

/-- A variable with a name of one letter. -/
def Term.letter (c : Char) (h : Text.isNameStart c = true) : Term :=
  .named ⟨[c], by simp [Text.isName, h], fun k => by cases k <;> exact fun heq => by simp [Connective.word] at heq,
    fun heq => by simp [Negation.text] at heq⟩

theorem Term.isDigit_of_mem_digit {c : Char} (h : c.isDigit = true) : ∀ d ∈ [c], d.isDigit = true := by
  intro d hd
  rwa [List.mem_singleton.mp hd]

/-- A numeral of one digit. -/
def Term.digit (negative : Bool) (c : Char) (h : c.isDigit = true) : Term :=
  .numeral negative ⟨[c], List.cons_ne_nil _ _, Term.isDigit_of_mem_digit h⟩

/-- A connective counts between two blanks. -/
theorem Joint.parts_one (k : Connective) (s : Spelling) (left right : Text) :
    Joint.Parts ⟨k, s, [' '], [' ']⟩ left right :=
  Joint.Spaced.parts ⟨by simp, by simp, Blanks.one.2, Blanks.one.2⟩ left right

/-- A condition with negations, parentheses and both connectives, each in chains of its own. -/
def nestedClauses : Clauses :=
  let a := Term.letter 'a' rfl
  let b := Term.letter 'b' rfl
  let c := Term.letter 'c' rfl
  let low : Clauses := .single (.compared ⟨a, Blanks.one, .less, false, Blanks.one, .digit true '5' rfl⟩)
  let other : Clauses := .single (.compared ⟨c, Blanks.one, .unequal, false, Blanks.one, a⟩)
  let choice : Clauses :=
    .join (.compared ⟨b, Blanks.none, .atLeast, false, Blanks.none, .digit false '2' rfl⟩) ⟨.or, .single, [], []⟩
      (.single (.negation .sign Blanks.none (.group Blanks.none other Blanks.none)))
  .join (.negation .word Blanks.one (.group Blanks.none low Blanks.none)) ⟨.and, .doubled, [' '], [' ']⟩
    (.join (.group Blanks.one choice Blanks.one) ⟨.and, .word, [' '], [' ']⟩
      (.single (.compared ⟨a, Blanks.one, .equal, true, Blanks.one, .digit false '0' rfl⟩)))

/-- It holds for three numbers, here and in C. -/
theorem Clauses.condition_agrees_nested :
    Condition.question "NOT (a < -5) && ( b>=2|!(c != a) ) AND a = 0 ?".toList = nestedClauses.text ∧
      Parted nestedClauses ∧ Plain nestedClauses ∧ nestedClauses.Readable ∧ nestedClauses.Exact ∧
      Definite nestedClauses ∧
      evaluateCondition (Environment.ofNumbers fun name => if name = "b" then 3 else 0)
        "NOT (a < -5) && ( b>=2|!(c != a) ) AND a = 0 ?".toList () = .done true () ∧
      C.read? (Code.condition "NOT (a < -5) && ( b>=2|!(c != a) ) AND a = 0 ?".toList) = some nestedClauses.expr ∧
      nestedClauses.expr.holds (fun name => if name = "b" then 3 else 0) = true := by
  have hquestion : Condition.question "NOT (a < -5) && ( b>=2|!(c != a) ) AND a = 0 ?".toList = nestedClauses.text := by
    decide
  have hparted : Parted nestedClauses := by
    refine ⟨⟨.inr rfl, trivial⟩, Joint.parts_one _ _ _ _, ?_, Joint.parts_one _ _ _ _, trivial⟩
    exact ⟨trivial, ⟨by simp, by simp, by decide, by decide⟩, .inr rfl, trivial⟩
  have hplain : Plain nestedClauses := by decide
  have hread : nestedClauses.Readable := by decide
  have hexact : nestedClauses.Exact := by decide
  have hdefinite : Definite nestedClauses := by decide
  have hholds : nestedClauses.holds (fun name => if name = "b" then 3 else 0) = true := by
    decide
  obtain ⟨heval, hexpr, hagree⟩ := Clauses.condition_agrees hparted hplain hread hexact hquestion
    (Environment.ofNumbers fun name => if name = "b" then 3 else 0) () _ fun name _ => rfl
  rw [hholds] at heval
  exact ⟨hquestion, hparted, hplain, hread, hexact, hdefinite, heval, hexpr, (hagree hdefinite).trans hholds⟩

/-- A condition with both connectives in one chain. -/
def mixedClauses : Clauses :=
  let equalsOne (c : Char) (h : Text.isNameStart c = true) : Clause :=
    .compared ⟨.letter c h, Blanks.one, .equal, true, Blanks.one, .digit false '1' rfl⟩
  .join (equalsOne 'a' rfl) ⟨.or, .word, [' '], [' ']⟩
    (.join (equalsOne 'b' rfl) ⟨.and, .word, [' '], [' ']⟩ (.single (equalsOne 'c' rfl)))

/-- Of numbers that make only the first comparison true, it does not hold, but its translation does. -/
theorem Clauses.condition_disagrees_mixed :
    evaluateCondition (Environment.ofNumbers fun name => if name = "a" then 1 else 0) "a = 1 OR b = 1 AND c = 1".toList () =
        .done false () ∧
      (C.read? (Code.condition "a = 1 OR b = 1 AND c = 1".toList)).map
        (C.Expr.holds fun name => if name = "a" then 1 else 0) = some true := by
  have hquestion : Condition.question "a = 1 OR b = 1 AND c = 1".toList = mixedClauses.text := by
    decide
  have hparted : Parted mixedClauses := ⟨trivial, Joint.parts_one _ _ _ _, trivial, Joint.parts_one _ _ _ _, trivial⟩
  have hplain : Plain mixedClauses := by decide
  have hread : mixedClauses.Readable := by decide
  have hexact : mixedClauses.Exact := by decide
  have htidy := (sound mixedClauses hparted).tidy.question_eq
  constructor
  · rw [evaluateCondition_congr _ (hquestion.trans htidy.symm)]
    exact evaluates (v := fun name => if name = "a" then 1 else 0) hparted hexact fun name _ => rfl
  · rw [read?_condition hparted hplain hread hexact hquestion]
    decide

end Flowchart
