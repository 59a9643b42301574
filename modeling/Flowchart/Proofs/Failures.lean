import Flowchart.Proofs.Code.Declarations
import Flowchart.Proofs.Session.Moments

/-!
# What a failed block leaves behind

A block reads its label and evaluates what is written there, and only then does it change anything: it binds a variable,
prints a value, or notes how the test of a loop came out.  None of these changes fails.  So where a block fails it has
changed nothing yet, and the functions that it called until then have only printed.  There is one exception.  A counting
loop binds the variable of a clause before it tests its condition, and the test may fail.

* `Action.exists_of_bind_failed` — where a sequence fails.  `Action.Sure` is an action that never fails, and in front of
  such an action it is the first part of a sequence that does (`Action.Sure.failed_of_bind`).
* `Machine.perform_failed` — the two sorts of failures: before anything was changed, and at the test of a counting loop
  whose clause was carried out.  `Machine.runClause_done` says what has been changed by the clause.
* **`Machine.execute_failed`** — the loops, the output and the variables after a block that failed.
-/

namespace Flowchart

/-! ### Actions that fail, and actions that never do -/

namespace Action

variable {σ α β : Type} {R : σ → σ → Prop} {act : Action σ α} {next : α → Action σ β} {s t : σ} {f : Fault} {a : α}

theorem Keeps.of_done (h : act.Keeps R) (hact : act s = .done a t) : R s t := by
  have hends := h s
  rwa [hact] at hends

theorem Keeps.of_failed (h : act.Keeps R) (hact : act s = .failed f t) : R s t := by
  have hends := h s
  rwa [hact] at hends

/-- A sequence that failed did so in its first part, or in its second one when the first one had come to its end. -/
theorem exists_of_bind_failed (h : (act >>= next) s = .failed f t) :
    act s = .failed f t ∨ ∃ a u, act s = .done a u ∧ next a u = .failed f t := by
  rw [bind_apply] at h
  cases hact : act s with
  | done a u =>
    rw [hact] at h
    exact .inr ⟨a, u, rfl, h⟩
  | failed g u =>
    rw [hact] at h
    cases h
    exact .inl rfl
  | unfinished =>
    rw [hact] at h
    cases h

/-- The action never fails. -/
def Sure (act : Action σ α) : Prop := ∀ s f t, act s ≠ .failed f t

theorem Sure.pure (a : α) : Sure (Pure.pure a : Action σ α) := fun _ _ _ h => by cases h

theorem Sure.update (change : σ → σ) : Sure (Action.update change) := fun _ _ _ h => by cases h

theorem Sure.bind (h : Sure act) (hnext : ∀ a, Sure (next a)) : Sure (act >>= next) := by
  intro s f t hfailed
  rcases exists_of_bind_failed hfailed with hact | ⟨a, u, -, hrest⟩
  · exact h s f t hact
  · exact hnext a u f t hrest

/-- In front of what never fails, it is the first part that failed. -/
theorem Sure.failed_of_bind (hnext : ∀ a, Sure (next a)) (h : (act >>= next) s = .failed f t) :
    act s = .failed f t := by
  rcases exists_of_bind_failed h with hact | ⟨a, u, -, hrest⟩
  · exact hact
  · exact absurd hrest (hnext a u f t)

end Action

namespace Machine

theorem sure_bind? (name : Option String) (v : Value) : (bind? name v).Sure := by
  cases name with
  | none => exact .pure ()
  | some name => exact .update _

/-! ### Instructions that fail -/

section

variable {env : Environment Machine} (hcalls : ∀ name arguments, (env.call name arguments).Keeps Untouched)
  {clause : Text} {m n : Machine} {fault : Fault}
include hcalls

/-- What a clause has done that came to its end: its one assignment, if it is an assignment, after the calls in it. -/
theorem runClause_done {bound : Machine} (h : runClause env clause m = .done () bound) :
    m.Untouched bound ∨
      ∃ a v o, assignment? clause = some a ∧ evaluate env a.expression m = .done v o ∧ m.Untouched o ∧
        bound = { o with scope := m.scope.set (String.ofList a.target) v } := by
  have hevaluate := evaluate_keeps Untouched.refl (fun _ _ _ => Untouched.trans) hcalls
  unfold runClause at h
  split at h
  · cases h
    exact .inl (Untouched.refl m)
  · cases ha : assignment? clause with
    | some a =>
      rw [ha] at h
      obtain ⟨v, o, hv, hbind⟩ := Action.exists_of_bind_done h
      have ho : m.Untouched o := (hevaluate a.expression).of_done hv
      refine .inr ⟨a, v, o, rfl, hv, ho, ?_⟩
      rw [← ho.scope_eq]
      cases hbind
      rfl
    | none =>
      rw [ha] at h
      obtain ⟨v, o, hv, hpure⟩ := Action.exists_of_bind_done h
      cases hpure
      exact .inl ((hevaluate clause).of_done hv)

/-- A clause that fails has changed nothing. -/
theorem runClause_failed (h : runClause env clause m = .failed fault n) : m.Untouched n := by
  have hevaluate := evaluate_keeps Untouched.refl (fun _ _ _ => Untouched.trans) hcalls
  unfold runClause at h
  split at h
  · cases h
  · cases ha : assignment? clause with
    | some a =>
      rw [ha] at h
      have hvalue := Action.Sure.failed_of_bind (fun v => sure_bind? (some (String.ofList a.target)) v) h
      exact (hevaluate a.expression).of_failed hvalue
    | none =>
      rw [ha] at h
      exact (hevaluate clause).of_failed (Action.Sure.failed_of_bind (fun _ => .pure ()) h)

/-- **An instruction fails before it changes anything**, or it is that of a counting loop, whose clause was carried out and
whose condition failed then. -/
theorem perform_failed {g : Graph} {id : BlockId} {i : Instruction} (h : perform env g id i m = .failed fault n) :
    m.Untouched n ∨
      ∃ init condition increment bound, i = .forLoop init condition increment ∧
        runClause env (if m.loops.contains id then increment else init) m = .done () bound ∧
        evaluateCondition env condition bound = .failed fault n := by
  have hevaluate := evaluate_keeps Untouched.refl (fun _ _ _ => Untouched.trans) hcalls
  have hcondition := evaluateCondition_keeps Untouched.refl (fun _ _ _ => Untouched.trans) hcalls
  have heach := evaluateEach_keeps Untouched.refl (fun _ _ _ => Untouched.trans) hcalls
  cases i with
  | start | finish | merge | input => cases h
  | assign target expression =>
    have hvalue := Action.Sure.failed_of_bind (fun v => (sure_bind? target v).bind fun _ => .pure _) h
    exact .inl ((hevaluate expression).of_failed hvalue)
  | output expression =>
    have hvalue := Action.Sure.failed_of_bind (fun v => (Action.Sure.update _).bind fun _ => .pure _) h
    exact .inl ((hevaluate expression).of_failed hvalue)
  | choose condition | doWhile condition =>
    have htest := Action.Sure.failed_of_bind (fun _ => .pure _) h
    exact .inl ((hcondition condition).of_failed htest)
  | whileLoop condition =>
    have htest := Action.Sure.failed_of_bind (fun outcome => (Action.Sure.update _).bind fun _ => .pure _) h
    exact .inl ((hcondition condition).of_failed htest)
  | forLoop init condition increment =>
    -- Looking at the loops does not fail; the clause does, or the test after it.
    rcases Action.exists_of_bind_failed h with hloop | ⟨again, _, hloop, h⟩
    · cases hloop
    cases hloop
    rcases Action.exists_of_bind_failed h with hclause | ⟨_, bound, hclause, h⟩
    · exact .inl (runClause_failed hcalls hclause)
    · have htest := Action.Sure.failed_of_bind (fun outcome => (Action.Sure.update _).bind fun _ => .pure _) h
      exact .inr ⟨init, condition, increment, bound, rfl, hclause, htest⟩
  | call target function arguments =>
    rcases Action.exists_of_bind_failed h with hvalues | ⟨values, o, hvalues, h⟩
    · exact .inl ((heach arguments).of_failed hvalues)
    · have hcall := Action.Sure.failed_of_bind (fun v => (sure_bind? target v).bind fun _ => .pure _) h
      have ho : m.Untouched o := (heach arguments).of_done hvalues
      exact .inl (ho.trans ((hcalls function values).of_failed hcall))

end

/-- **A block that fails leaves the machine as it was**, but for the output, to which calls have added.  There is one
exception: in a counting loop whose condition fails, the variable of the clause that was carried out before has the value
of that clause.  A counting loop carries out its last clause while its body is being executed, and else its first one. -/
theorem execute_failed (p : Program) (limit allowance room : Nat) (g : Graph) (b : Block) {m n : Machine} {fault : Fault}
    (h : execute (environment (call p limit allowance room)) g b m = .failed fault n) :
    n.loops = m.loops ∧ (∃ text, n.output = m.output ++ text) ∧
      (n.scope = m.scope ∨
        ∃ init condition increment a v o, b.instruction = .ok (.forLoop init condition increment) ∧
          assignment? (if m.loops.contains b.id then increment else init) = some a ∧
          evaluate (environment (call p limit allowance room)) a.expression m = .done v o ∧
          evaluateCondition (environment (call p limit allowance room)) condition
            { o with scope := m.scope.set (String.ofList a.target) v } = .failed fault n ∧
          n.scope = m.scope.set (String.ofList a.target) v) := by
  have hcalls : ∀ name arguments,
      ((environment (call p limit allowance room)).call name arguments).Keeps Untouched :=
    call_keeps p limit allowance room
  unfold execute at h
  cases hi : b.instruction with
  | error f =>
    rw [hi] at h
    cases h
    exact ⟨rfl, (Untouched.refl m).output_eq, .inl rfl⟩
  | ok i =>
    rw [hi] at h
    have hperform : perform (environment (call p limit allowance room)) g b.id i m = .failed fault n := h
    rcases perform_failed hcalls hperform with hn | ⟨init, condition, increment, bound, rfl, hclause, htest⟩
    · exact ⟨hn.loops_eq, hn.output_eq, .inl hn.scope_eq⟩
    · have hcondition := evaluateCondition_keeps Untouched.refl (fun _ _ _ => Untouched.trans) hcalls condition
      have hn : bound.Untouched n := hcondition.of_failed htest
      rcases runClause_done hcalls hclause with hbound | ⟨a, v, o, ha, hv, ho, rfl⟩
      · have hmn := hbound.trans hn
        exact ⟨hmn.loops_eq, hmn.output_eq, .inl hmn.scope_eq⟩
      · obtain ⟨first, hfirst⟩ := ho.output_eq
        obtain ⟨second, hsecond⟩ := hn.output_eq
        refine ⟨hn.loops_eq.trans ho.loops_eq, ⟨first ++ second, ?_⟩,
          .inr ⟨init, condition, increment, a, v, o, rfl, ha, hv, htest, hn.scope_eq⟩⟩
        rw [hsecond, ← String.append_assoc, ← hfirst]

/-- A counting loop whose condition asks for a variable that is not there. -/
def countingToNowhere : Block := ⟨1, .forLoop, "i = 1; i < last; i = i + 1"⟩

/-- The clause has bound its variable when the condition fails. -/
theorem execute_failed_countingToNowhere :
    let env := environment (call {} 9 9 9)
    let bound : Machine := { scope := { globals := [("i", .int 1)] }, output := "5\n", loops := [4] }
    execute env {} countingToNowhere { output := "5\n", loops := [4] } = .failed (.undefinedVariable "last") bound ∧
      ∃ a v o, assignment? "i = 1".toList = some a ∧
        evaluate env a.expression { output := "5\n", loops := [4] } = .done v o ∧
        bound.scope = ({} : Scope).set (String.ofList a.target) v := by
  intro env bound
  have h : execute env {} countingToNowhere { output := "5\n", loops := [4] } =
      .failed (.undefinedVariable "last") bound := by cbv
  have hlabel : countingToNowhere.instruction =
      .ok (.forLoop "i = 1".toList "i < last".toList "i = i + 1".toList) := by cbv
  obtain ⟨-, -, hscope⟩ := execute_failed {} 9 9 9 {} countingToNowhere h
  obtain ⟨_, _, _, a, v, o, hforLoop, ha, hv, -, hset⟩ := hscope.resolve_left (by decide)
  cases hlabel.symm.trans hforLoop
  exact ⟨h, a, v, o, ha, hv, hset⟩

end Machine

end Flowchart
