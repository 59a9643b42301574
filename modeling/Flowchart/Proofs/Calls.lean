import Flowchart.Proofs.Simulation

/-!
# Calls leave the caller alone

A function prints, but it changes nothing else that its caller can see.  Its variables live in a frame of its
own, its loops in a list of their own, and both are gone when the call is over: when the body came to its end,
and just as well when it failed anywhere, at whatever depth.

* `Admission`, `admission` — a call begins with a check that does not look at the state of the machine.
  `call_eq` takes the call apart: the check, the body in a fresh frame, the return.
* `Machine.Untouched` — the same variables, the same loops, and the old output at the start of the new one.
* `Machine.Above` — inside a body: one frame above the variables of the caller.  `bodyOutcome_above` is the
  invariant of a body, `call_keeps` the induction on the number of calls that may still be nested.
* **`call_leaves_variables`** — calls, expressions and conditions leave every variable as it was.
-/

namespace Flowchart.Machine

/-! ### What a call does -/

/-- What is settled before the body of a function is executed: the function, the ends of its body, and the
number of calls that may be nested in this one. -/
structure Admission where
  function : Function
  start : BlockId
  finish : BlockId
  room : Nat

/-- The check at the beginning of a call. -/
def admission (p : Program) (limit room : Nat) (name : String) (arguments : List Value) : Except Fault Admission :=
  match p.functions.get? name with
  | none => .error (.unknownFunction name)
  | some f =>
    if arguments.length ≠ f.parameters.length then
      .error (.argumentCount name f.parameters.length arguments.length)
    else
      match room with
      | 0 => .error (.callDepthExceeded name limit)
      | room + 1 =>
        match f.body.start?, f.body.finish? with
        | some start, some finish => .ok ⟨f, start, finish, room⟩
        | _, _ => .error (.incompleteFunction name)

/-- **What the check establishes**: the function is that of the name, its body has two ends, and the room that is left
inside the call is one less than before. -/
theorem of_admission {p : Program} {limit room : Nat} {name : String} {arguments : List Value} {a : Admission}
    (h : admission p limit room name arguments = .ok a) :
    p.functions.get? name = some a.function ∧ a.function.body.start? = some a.start ∧
      a.function.body.finish? = some a.finish ∧ room = a.room + 1 := by
  unfold admission at h
  split at h
  · cases h
  · next f hf =>
    split at h
    · cases h
    · split at h
      · cases h
      · split at h
        · next start finish hstart hfinish =>
          cases h
          exact ⟨hf, hstart, hfinish, rfl⟩
        · cases h

theorem room_lt_of_admission {p : Program} {limit room : Nat} {name : String} {arguments : List Value}
    {a : Admission} (h : admission p limit room name arguments = .ok a) : a.room < room := by
  rw [(of_admission h).2.2.2]
  exact Nat.lt_succ_self _

/-- The faults that the check raises. -/
theorem fault_of_admission {p : Program} {limit room : Nat} {name : String} {arguments : List Value} {f : Fault}
    (h : admission p limit room name arguments = .error f) :
    f = .unknownFunction name ∨ (∃ expected, f = .argumentCount name expected arguments.length) ∨
      f = .callDepthExceeded name limit ∨ f = .incompleteFunction name := by
  unfold admission at h
  split at h
  · cases h
    exact .inl rfl
  · next g _ =>
    split at h
    · cases h
      exact .inr (.inl ⟨g.parameters.length, rfl⟩)
    · split at h
      · cases h
        exact .inr (.inr (.inl rfl))
      · split at h
        · cases h
        · cases h
          exact .inr (.inr (.inr rfl))

/-- The body of a function that was admitted, from its start block on. -/
def bodyOutcome (p : Program) (limit allowance : Nat) (name : String) (arguments : List Value) (a : Admission)
    (m : Machine) : Outcome Machine Unit :=
  runBody (execute (environment (call p limit allowance a.room)) a.function.body) name a.function.body a.finish
    allowance (some a.start) (m.enter (a.function.frame name arguments))

/-- **A call is a check, then a body in a frame of its own, then the return to the caller.** -/
theorem call_eq (p : Program) (limit allowance room : Nat) (name : String) (arguments : List Value)
    (m : Machine) :
    call p limit allowance room name arguments m =
      match admission p limit room name arguments with
      | .error f => .failed f m
      | .ok a => returnFrom a.function m.loops (bodyOutcome p limit allowance name arguments a m) := by
  rw [call.eq_def]
  dsimp only
  unfold admission
  cases p.functions.get? name with
  | none => rfl
  | some f =>
    dsimp only
    by_cases hlen : arguments.length ≠ f.parameters.length
    · rw [if_pos hlen, if_pos hlen]
    rw [if_neg hlen, if_neg hlen]
    cases room with
    | zero => rfl
    | succ room =>
      dsimp only
      cases f.body.start? with
      | none => rfl
      | some start =>
        cases f.body.finish? with
        | none => rfl
        | some finish => rfl

/-! ### The variables of the caller -/

/-- One machine comes out of the other by printing alone. -/
structure Untouched (m n : Machine) : Prop where
  scope_eq : n.scope = m.scope
  loops_eq : n.loops = m.loops
  output_eq : ∃ text, n.output = m.output ++ text

theorem Untouched.refl (m : Machine) : m.Untouched m := ⟨rfl, rfl, "", by simp⟩

theorem Untouched.trans {m n o : Machine} (h : m.Untouched n) (h' : n.Untouched o) : m.Untouched o := by
  obtain ⟨t, ht⟩ := h.output_eq
  obtain ⟨t', ht'⟩ := h'.output_eq
  exact ⟨h'.scope_eq.trans h.scope_eq, h'.loops_eq.trans h.loops_eq, t ++ t', by
    rw [ht', ht, String.append_assoc]⟩

/-- Inside the body of a function: one frame stands above the variables of the caller, and the output goes on
from what the caller had printed. -/
def Above (caller m : Machine) : Prop :=
  (∃ frame, m.scope = caller.scope.push frame) ∧ ∃ text, m.output = caller.output ++ text

/-- What blocks do inside a body keeps to the frame of the body. -/
theorem respected_above (caller : Machine) : Respected (fun _ m n => m = n ∧ caller.Above m) where
  bind := by
    rintro m _ ⟨rfl, ⟨frame, hf⟩, hout⟩ name v
    refine ⟨rfl, ⟨frame.bind name v, ?_⟩, hout⟩
    show m.scope.set name v = _
    rw [hf]
    rfl
  print := by
    rintro m _ ⟨rfl, hscope, text, ht⟩ v
    refine ⟨rfl, hscope, (text ++ v.display).push '\n', ?_⟩
    show (m.output ++ v.display).push '\n' = _
    rw [ht, String.push_eq_append, String.push_eq_append, String.append_assoc, String.append_assoc,
      String.append_assoc]
  loops := by
    rintro m _ ⟨rfl, -⟩
    rfl
  track := by
    rintro m _ ⟨rfl, h⟩ id outcome
    exact ⟨rfl, h⟩
  poll := by
    rintro m _ ⟨rfl, h⟩
    refine ⟨⟨rfl, ?_⟩, rfl⟩
    unfold Machine.poll
    split <;> exact h

/-- Calls that leave their callers alone leave the callers of their callers alone. -/
theorem environment_sim_above {calls : String → List Value → Action Machine Value}
    (h : ∀ name arguments, (calls name arguments).Keeps Untouched) (caller : Machine) :
    (environment calls).Sim (fun _ m n => m = n ∧ caller.Above m) (environment calls) where
  lookup := by
    rintro m _ ⟨rfl, -⟩ name
    rfl
  undefined := fun _ _ hm _ => hm
  call := by
    rintro name arguments m _ ⟨rfl, ⟨frame, hf⟩, text, ht⟩
    have above : ∀ n, m.Untouched n → caller.Above n := by
      intro n hn
      obtain ⟨t, ht'⟩ := hn.output_eq
      exact ⟨⟨frame, hn.scope_eq.trans hf⟩, text ++ t, by rw [ht', ht, String.append_assoc]⟩
    exact Outcome.sim_of_ends ((h name arguments m).imp above)

/-- **The invariant of a body.**  However the body of a function ends, its frame is the only one above the
variables of the caller. -/
theorem bodyOutcome_above (p : Program) (limit allowance : Nat) (name : String) (arguments : List Value)
    (a : Admission)
    (h : ∀ name arguments, (call p limit allowance a.room name arguments).Keeps Untouched) (m : Machine) :
    (bodyOutcome p limit allowance name arguments a m).Ends m.Above := by
  refine Outcome.ends_of_sim (runBody_sim (respected_above m) (fun _ _ _ hm => hm) ?_ name _ _ (Nat.le_refl _) _ ?_)
  · intro b
    exact execute_sim (respected_above m) (environment_sim_above h m) _ b fun _ _ _ _ hm => hm
  · exact ⟨rfl, ⟨_, rfl⟩, "", by simp [Machine.enter]⟩

/-- The caller gets back its variables and its loops. -/
theorem returnFrom_untouched (f : Function) (m : Machine) {o : Outcome Machine Unit} (h : o.Ends m.Above) :
    (returnFrom f m.loops o).Ends m.Untouched := by
  have left : ∀ n : Machine, m.Above n → m.Untouched (n.leave m.loops) := by
    rintro n ⟨⟨frame, hf⟩, text, ht⟩
    refine ⟨?_, rfl, text, ht⟩
    show n.scope.pop = m.scope
    rw [hf, Scope.pop_push]
  cases o with
  | done u n => exact left n h
  | failed f n => exact left n h
  | unfinished => trivial

/-- **Calls print and do nothing else**, by induction on the room for nested calls: the calls inside a body
have less of it. -/
theorem call_keeps (p : Program) (limit allowance room : Nat) (name : String) (arguments : List Value) :
    (call p limit allowance room name arguments).Keeps Untouched := by
  induction room using Nat.strongRecOn generalizing name arguments with
  | ind room ih =>
    intro m
    rw [call_eq]
    cases ha : admission p limit room name arguments with
    | error f => exact Untouched.refl m
    | ok a =>
      have hroom := room_lt_of_admission ha
      exact returnFrom_untouched a.function m
        (bodyOutcome_above p limit allowance name arguments a (fun name' arguments' => ih a.room hroom name' arguments') m)

/-- **Calls leave the variables alone.**  Wherever a call ends, with a value or with a fault raised at any
depth, the scope and the loops of the caller are what they were, and the output has only grown; and so it is
where an expression or a condition is evaluated, whatever calls it holds. -/
theorem call_leaves_variables (p : Program) (limit allowance room : Nat) (m : Machine) :
    (∀ name arguments, (call p limit allowance room name arguments m).Ends fun n =>
      n.scope = m.scope ∧ n.loops = m.loops ∧ ∃ text, n.output = m.output ++ text) ∧
    (∀ t, (evaluate (environment (call p limit allowance room)) t m).Ends fun n =>
      n.scope = m.scope ∧ n.loops = m.loops ∧ ∃ text, n.output = m.output ++ text) ∧
    ∀ t, (evaluateCondition (environment (call p limit allowance room)) t m).Ends fun n =>
      n.scope = m.scope ∧ n.loops = m.loops ∧ ∃ text, n.output = m.output ++ text := by
  have spell : ∀ n, m.Untouched n →
      n.scope = m.scope ∧ n.loops = m.loops ∧ ∃ text, n.output = m.output ++ text :=
    fun n h => ⟨h.scope_eq, h.loops_eq, h.output_eq⟩
  have calls : ∀ name arguments,
      ((environment (call p limit allowance room)).call name arguments).Keeps Untouched :=
    call_keeps p limit allowance room
  refine ⟨fun name arguments => (calls name arguments m).imp spell, fun t => ?_, fun t => ?_⟩
  · exact (evaluate_keeps Untouched.refl (fun _ _ _ => Untouched.trans) calls t m).imp spell
  · exact (evaluateCondition_keeps Untouched.refl (fun _ _ _ => Untouched.trans) calls t m).imp spell

end Flowchart.Machine
