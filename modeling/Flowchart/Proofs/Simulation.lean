import Flowchart.Condition.Evaluation
import Flowchart.Machine.Execution

/-!
# Actions that simulate one another

Most of what there is to say about a run compares two runs: one with a larger allowance, one in another scope,
one that follows a tree instead of a chart.  All of these comparisons go through the same evaluator, and the
evaluator only touches its state through an environment.  So the comparison is made once, for a relation `S`
between the states that is up to the reader of this file:

* `Outcome.Sim` — two outcomes agree: the same value in related states, or the same fault in related states.
  The relation is told the fault (`none` while there is none), so that it can say which faults do not occur.
  An unfinished outcome on the left agrees with everything.
* `Action.Sim` — two actions agree from any related states; `Action.Sim.bind` is the rule for sequences.
* `Environment.Sim` — look-up gives the same values in related states, and calls agree.
* **`evaluate_sim`, `evaluateCondition_sim`** — in environments that agree, every text has the same value.
* **`Machine.execute_sim`, `Machine.runBody_sim`** — the same for blocks and for function bodies, for relations
  between machines that binding, printing and tracking loops respect (`Machine.Steady`), and polling for requests to
  stop as well (`Machine.Respected`).  `Machine.runBody_sim_of_poll` is for relations that end with such a request.

With equal states on both sides a simulation is an invariant (`Outcome.Ends`): whatever the environment keeps,
evaluation keeps.
-/

namespace Flowchart

variable {σ τ α β : Type}

/-! ### Outcomes and actions -/

/-- Two outcomes agree, the states being related as `S` says for the fault that ended the actions, if any did.
What is not finished says nothing. -/
inductive Outcome.Sim (S : Option Fault → σ → τ → Prop) : Outcome σ α → Outcome τ α → Prop where
  | done {a : α} {s : σ} {t : τ} (h : S none s t) : Sim S (.done a s) (.done a t)
  | failed {f : Fault} {s : σ} {t : τ} (h : S (some f) s t) : Sim S (.failed f s) (.failed f t)
  | unfinished {o : Outcome τ α} : Sim S .unfinished o

/-- Going on alike from agreeing outcomes gives agreeing outcomes. -/
theorem Outcome.Sim.andThen {S : Option Fault → σ → τ → Prop} {o : Outcome σ α} {o' : Outcome τ α}
    {next : α → Action σ β} {next' : α → Action τ β} (h : o.Sim S o')
    (hnext : ∀ a s t, S none s t → (next a s).Sim S (next' a t)) :
    (o.andThen next).Sim S (o'.andThen next') := by
  cases h with
  | done hst => exact hnext _ _ _ hst
  | failed hst => exact .failed hst
  | unfinished => exact .unfinished

/-- Two actions agree wherever they begin in related states. -/
def Action.Sim (S : Option Fault → σ → τ → Prop) (act : Action σ α) (act' : Action τ α) : Prop :=
  ∀ s t, S none s t → (act s).Sim S (act' t)

namespace Action.Sim

variable {S : Option Fault → σ → τ → Prop} {act : Action σ α} {act' : Action τ α}

theorem pure (a : α) : Action.Sim S (Pure.pure a : Action σ α) (Pure.pure a : Action τ α) :=
  fun _ _ h => .done h

/-- A fault that the relation admits may be raised on both sides. -/
theorem fail {f : Fault} (h : ∀ s t, S none s t → S (some f) s t) :
    Action.Sim S (Action.fail f : Action σ α) (Action.fail f : Action τ α) :=
  fun s t hst => .failed (h s t hst)

/-- **Sequences of agreeing actions agree.** -/
theorem bind {next : α → Action σ β} {next' : α → Action τ β} (h : Action.Sim S act act')
    (hnext : ∀ a, Action.Sim S (next a) (next' a)) : Action.Sim S (act >>= next) (act' >>= next') := by
  intro s t hst
  rw [bind_apply, bind_apply]
  exact (h s t hst).andThen fun a s' t' hst' => hnext a s' t' hst'

/-- What is known beforehand is the same on both sides. -/
theorem ofExcept {r : Except Fault α} (h : ∀ f, r = .error f → ∀ s t, S none s t → S (some f) s t) :
    Action.Sim S (Action.ofExcept r : Action σ α) (Action.ofExcept r : Action τ α) := by
  cases r with
  | ok a => exact Action.Sim.pure a
  | error f => exact Action.Sim.fail (h f rfl)

end Action.Sim

/-! ### Environments and evaluation -/

/-- Two environments agree: on the values of variables, on calls, and on the one fault that evaluation itself
can raise. -/
structure Environment.Sim (S : Option Fault → σ → τ → Prop) (env : Environment σ) (env' : Environment τ) :
    Prop where
  lookup : ∀ s t, S none s t → ∀ name, env.lookup s name = env'.lookup t name
  undefined : ∀ s t, S none s t → ∀ text, S (some (.undefinedVariable text)) s t
  call : ∀ name arguments, Action.Sim S (env.call name arguments) (env'.call name arguments)

section Evaluation

variable {S : Option Fault → σ → τ → Prop} {env : Environment σ} {env' : Environment τ}

theorem Environment.Sim.variableValue (h : env.Sim S env') (name : String) :
    Action.Sim S (env.variableValue name) (env'.variableValue name) := by
  intro s t hst
  unfold Environment.variableValue
  rw [h.lookup s t hst name]
  cases env'.lookup t name with
  | some v => exact .done hst
  | none => exact .failed (h.undefined s t hst name)

theorem Environment.Sim.arithmeticValue (h : env.Sim S env') (source : Text) :
    Action.Sim S (env.arithmeticValue source) (env'.arithmeticValue source) := by
  intro s t hst
  have hlookup : env.lookup s = env'.lookup t := funext (h.lookup s t hst)
  unfold Environment.arithmeticValue
  rw [hlookup]
  exact .done hst

mutual

/-- An expression has the same value in environments that agree. -/
theorem Expression.eval_sim (h : env.Sim S env') :
    ∀ e : Expression, Action.Sim S (e.eval env) (e.eval env')
  | .literal v => by
    rw [Expression.eval, Expression.eval]
    exact Action.Sim.pure v
  | .call name arguments => by
    rw [Expression.eval, Expression.eval]
    exact (Expression.evalAll_sim h arguments).bind fun values => h.call name values
  | .arithmetic source => by
    rw [Expression.eval, Expression.eval]
    exact h.arithmeticValue source
  | .named name => by
    rw [Expression.eval, Expression.eval]
    exact h.variableValue name
  | .unreadable source => by
    rw [Expression.eval, Expression.eval]
    exact Action.Sim.fail fun s t hst => h.undefined s t hst _

theorem Expression.evalAll_sim (h : env.Sim S env') :
    ∀ es : List Expression, Action.Sim S (Expression.evalAll env es) (Expression.evalAll env' es)
  | [] => by
    rw [Expression.evalAll, Expression.evalAll]
    exact Action.Sim.pure []
  | e :: rest => by
    rw [Expression.evalAll, Expression.evalAll]
    exact (Expression.eval_sim h e).bind fun v =>
      (Expression.evalAll_sim h rest).bind fun vs => Action.Sim.pure (v :: vs)

end

/-- **A text has the same value in environments that agree.** -/
theorem evaluate_sim (h : env.Sim S env') (t : Text) : Action.Sim S (evaluate env t) (evaluate env' t) :=
  Expression.eval_sim h (Expression.read t)

theorem Condition.eval_sim (h : env.Sim S env') (c : Condition) :
    Action.Sim S (c.eval env) (c.eval env') := by
  induction c with
  | both left right ihl ihr =>
    refine ihl.bind fun a => ?_
    cases a with
    | true => exact ihr
    | false => exact Action.Sim.pure false
  | either left right ihl ihr =>
    refine ihl.bind fun a => ?_
    cases a with
    | true => exact Action.Sim.pure true
    | false => exact ihr
  | negation operand ih => exact ih.bind fun a => Action.Sim.pure (!a)
  | compared comparator left right =>
    exact (Expression.eval_sim h left).bind fun a =>
      (Expression.eval_sim h right).bind fun b => Action.Sim.pure (comparator.holds a b)
  | holds value => exact (Expression.eval_sim h value).bind fun a => Action.Sim.pure a.isTruthy

/-- **A condition has the same truth value in environments that agree.** -/
theorem evaluateCondition_sim (h : env.Sim S env') (t : Text) :
    Action.Sim S (evaluateCondition env t) (evaluateCondition env' t) :=
  Condition.eval_sim h (Condition.read t)

end Evaluation

/-! ### Blocks and bodies -/

namespace Machine

/-- Binding a variable, printing a value and tracking a loop respect a relation between machines, and the related
machines are inside the same loops. -/
structure Steady (S : Option Fault → Machine → Machine → Prop) : Prop where
  bind : ∀ m n, S none m n → ∀ name v,
    S none { m with scope := m.scope.set name v } { n with scope := n.scope.set name v }
  print : ∀ m n, S none m n → ∀ v : Value,
    S none { m with output := (m.output ++ v.display).push '\n' }
      { n with output := (n.output ++ v.display).push '\n' }
  loops : ∀ m n, S none m n → m.loops = n.loops
  track : ∀ m n, S none m n → ∀ id outcome,
    S none { m with loops := trackLoop id outcome m.loops } { n with loops := trackLoop id outcome n.loops }

/-- The same, and polling the requests to stop respects the relation as well. -/
structure Respected (S : Option Fault → Machine → Machine → Prop) : Prop extends Steady S where
  poll : ∀ m n, S none m n → S none m.poll n.poll ∧ m.poll.stopRequested = n.poll.stopRequested

variable {S : Option Fault → Machine → Machine → Prop} {env env' : Environment Machine}

theorem bind?_sim (hS : Steady S) (name : Option String) (v : Value) :
    Action.Sim S (bind? name v) (bind? name v) := by
  cases name with
  | none => exact Action.Sim.pure ()
  | some name => exact fun m n h => .done (hS.bind m n h name v)

theorem runClause_sim (hS : Steady S) (h : env.Sim S env') (clause : Text) :
    Action.Sim S (runClause env clause) (runClause env' clause) := by
  unfold runClause
  split
  · exact Action.Sim.pure ()
  · split
    · next a _ =>
      exact (evaluate_sim h a.expression).bind fun v => bind?_sim hS (some (String.ofList a.target)) v
    · exact (evaluate_sim h clause).bind fun _ => Action.Sim.pure ()

theorem evaluateEach_sim (h : env.Sim S env') (ts : List Text) :
    Action.Sim S (evaluateEach env ts) (evaluateEach env' ts) := by
  induction ts with
  | nil => exact Action.Sim.pure []
  | cons t rest ih =>
    exact (evaluate_sim h t).bind fun v => ih.bind fun vs => Action.Sim.pure (v :: vs)

theorem noteLoop_sim (hS : Steady S) (id : BlockId) (outcome : Bool) :
    Action.Sim S (noteLoop id outcome) (noteLoop id outcome) :=
  fun m n h => .done (hS.track m n h id outcome)

theorem perform_sim (hS : Steady S) (h : env.Sim S env') (g : Graph) (id : BlockId) (i : Instruction) :
    Action.Sim S (perform env g id i) (perform env' g id i) := by
  cases i with
  | start => exact Action.Sim.pure _
  | finish => exact Action.Sim.pure _
  | merge => exact Action.Sim.pure _
  | assign target expression =>
    exact (evaluate_sim h expression).bind fun v =>
      (bind?_sim hS target v).bind fun _ => Action.Sim.pure _
  | input names => exact Action.Sim.pure _
  | output expression =>
    have hprint : ∀ v, Action.Sim S (print v) (print v) := fun v m n hmn => .done (hS.print m n hmn v)
    exact (evaluate_sim h expression).bind fun v => (hprint v).bind fun _ => Action.Sim.pure _
  | choose condition => exact (evaluateCondition_sim h condition).bind fun _ => Action.Sim.pure _
  | doWhile condition => exact (evaluateCondition_sim h condition).bind fun _ => Action.Sim.pure _
  | whileLoop condition =>
    exact (evaluateCondition_sim h condition).bind fun outcome =>
      (noteLoop_sim hS id outcome).bind fun _ => Action.Sim.pure _
  | forLoop init condition increment =>
    have hloop : Action.Sim S (inLoop id) (inLoop id) := by
      intro m n hmn
      unfold inLoop
      rw [Action.observe_apply, Action.observe_apply, hS.loops m n hmn]
      exact .done hmn
    exact hloop.bind fun again => (runClause_sim hS h _).bind fun _ =>
      (evaluateCondition_sim h condition).bind fun outcome =>
        (noteLoop_sim hS id outcome).bind fun _ => Action.Sim.pure _
  | call target function arguments =>
    exact (evaluateEach_sim h arguments).bind fun values => (h.call function values).bind fun v =>
      (bind?_sim hS target v).bind fun _ => Action.Sim.pure _

/-- **A block has the same effect in environments that agree.**  The relation has to admit the fault of a label
that cannot be read. -/
theorem execute_sim_of_steady (hS : Steady S) (h : env.Sim S env') (g : Graph) (b : Block)
    (hlabel : ∀ f, b.instruction = .error f → ∀ m n, S none m n → S (some f) m n) :
    Action.Sim S (execute env g b) (execute env' g b) :=
  (Action.Sim.ofExcept hlabel).bind fun i => perform_sim hS h g b.id i

theorem execute_sim (hS : Respected S) (h : env.Sim S env') (g : Graph) (b : Block)
    (hlabel : ∀ f, b.instruction = .error f → ∀ m n, S none m n → S (some f) m n) :
    Action.Sim S (execute env g b) (execute env' g b) :=
  execute_sim_of_steady hS.toSteady h g b hlabel

/-- **Agreeing blocks make agreeing bodies**, if the machines agree about the requests to stop: both notice one,
and the relation admits that both are cancelled, or neither notices any.  The left body may have the smaller
allowance. -/
theorem runBody_sim_of_poll
    (hpoll : ∀ m n, S none m n → m.poll.stopRequested = n.poll.stopRequested ∧
      (n.poll.stopRequested = true → S (some .cancelled) m.poll n.poll) ∧
      (n.poll.stopRequested = false → S none m.poll n.poll))
    (hfault : ∀ f, f ≠ .cancelled → ∀ m n, S none m n → S (some f) m n)
    {step step' : Block → Action Machine Flow} (hstep : ∀ b, Action.Sim S (step b) (step' b))
    (name : String) (g : Graph) (finish : BlockId) {allowance allowance' : Nat} (h : allowance ≤ allowance')
    (id : Option BlockId) {m n : Machine} (hmn : S none m n) :
    (runBody step name g finish allowance id m).Sim S (runBody step' name g finish allowance' id n) := by
  induction allowance generalizing allowance' id m n with
  | zero => exact .unfinished
  | succ a ih =>
    obtain ⟨a', rfl⟩ : ∃ a', allowance' = a' + 1 := ⟨allowance' - 1, by omega⟩
    cases id with
    | none => exact .done hmn
    | some id =>
      obtain ⟨hstop, hcancelled, hpolled⟩ := hpoll m n hmn
      simp only [runBody]
      by_cases hfin : id = finish
      · rw [if_pos hfin, if_pos hfin]
        exact .done hmn
      rw [if_neg hfin, if_neg hfin, hstop]
      by_cases hs : n.poll.stopRequested = true
      · rw [if_pos hs, if_pos hs]
        exact .failed (hcancelled hs)
      rw [if_neg hs, if_neg hs]
      have hpolled' := hpolled (Bool.eq_false_iff.mpr hs)
      cases g.block? id with
      | none => exact .failed (hfault _ Fault.noConfusion _ _ hpolled')
      | some b =>
        -- What the block does on both sides decides how the body goes on.
        have hb := hstep b _ _ hpolled'
        revert hb
        dsimp only
        generalize step b m.poll = o
        generalize step' b n.poll = o'
        intro hb
        cases hb with
        | @done flow _ _ hnext =>
          cases flow with
          | next target => exact ih (by omega) target hnext
          | awaitInput names => exact .failed (hfault _ Fault.noConfusion _ _ hnext)
        | failed hf => exact .failed hf
        | unfinished => exact .unfinished

theorem runBody_sim (hS : Respected S) (hfault : ∀ f m n, S none m n → S (some f) m n)
    {step step' : Block → Action Machine Flow} (hstep : ∀ b, Action.Sim S (step b) (step' b))
    (name : String) (g : Graph) (finish : BlockId) {allowance allowance' : Nat} (h : allowance ≤ allowance')
    (id : Option BlockId) {m n : Machine} (hmn : S none m n) :
    (runBody step name g finish allowance id m).Sim S (runBody step' name g finish allowance' id n) := by
  refine runBody_sim_of_poll (fun m n hmn => ?_) (fun f _ => hfault f) hstep name g finish h id hmn
  obtain ⟨hpolled, hstop⟩ := hS.poll m n hmn
  exact ⟨hstop, fun _ => hfault _ _ _ hpolled, fun _ => hpolled⟩

end Machine

/-! ### Invariants -/

/-- Where an action ends, be it with a value or with a fault, the state is as `P` says. -/
def Outcome.Ends (P : σ → Prop) : Outcome σ α → Prop
  | .done _ s => P s
  | .failed _ s => P s
  | .unfinished => True

theorem Outcome.Ends.imp {P Q : σ → Prop} {o : Outcome σ α} (h : o.Ends P) (hPQ : ∀ s, P s → Q s) :
    o.Ends Q := by
  cases o with
  | done a s => exact hPQ s h
  | failed f s => exact hPQ s h
  | unfinished => trivial

/-- An outcome that agrees with itself in states of some sort ends in such a state. -/
theorem Outcome.ends_of_sim {P : σ → Prop} {o : Outcome σ α} (h : o.Sim (fun _ s t => s = t ∧ P s) o) :
    o.Ends P := by
  cases o with
  | done a s =>
    cases h with
    | done hs => exact hs.2
  | failed f s =>
    cases h with
    | failed hs => exact hs.2
  | unfinished => trivial

/-- An outcome in a state of some sort agrees with itself in states of that sort. -/
theorem Outcome.sim_of_ends {P : σ → Prop} {o : Outcome σ α} (h : o.Ends P) :
    o.Sim (fun _ s t => s = t ∧ P s) o := by
  cases o with
  | done a s => exact .done ⟨rfl, h⟩
  | failed f s => exact .failed ⟨rfl, h⟩
  | unfinished => exact .unfinished

/-- The state in which an action ends is related to the one in which it began. -/
def Action.Keeps (R : σ → σ → Prop) (act : Action σ α) : Prop := ∀ s, (act s).Ends (R s)

section Keeping

variable {R : σ → σ → Prop} {env : Environment σ}

/-- An environment whose calls keep a reflexive and transitive relation agrees with itself in the states that
are related to a first one. -/
theorem Environment.sim_of_keeps (htrans : ∀ s t u, R s t → R t u → R s u)
    (h : ∀ name arguments, (env.call name arguments).Keeps R) (first : σ) :
    env.Sim (fun _ s t => s = t ∧ R first s) env where
  lookup := by
    rintro s _ ⟨rfl, -⟩ name
    rfl
  undefined := fun _ _ hs _ => hs
  call := by
    rintro name arguments s _ ⟨rfl, hs⟩
    exact Outcome.sim_of_ends ((h name arguments s).imp fun t ht => htrans _ _ _ hs ht)

/-- **What calls keep, evaluation keeps.** -/
theorem evaluate_keeps (hrefl : ∀ s, R s s) (htrans : ∀ s t u, R s t → R t u → R s u)
    (h : ∀ name arguments, (env.call name arguments).Keeps R) (t : Text) : (evaluate env t).Keeps R :=
  fun s => Outcome.ends_of_sim
    (evaluate_sim (Environment.sim_of_keeps htrans h s) t s s ⟨rfl, hrefl s⟩)

/-- **What calls keep, conditions keep.** -/
theorem evaluateCondition_keeps (hrefl : ∀ s, R s s) (htrans : ∀ s t u, R s t → R t u → R s u)
    (h : ∀ name arguments, (env.call name arguments).Keeps R) (t : Text) : (evaluateCondition env t).Keeps R :=
  fun s => Outcome.ends_of_sim
    (evaluateCondition_sim (Environment.sim_of_keeps htrans h s) t s s ⟨rfl, hrefl s⟩)

end Keeping

end Flowchart
