import Flowchart.Proofs.Calls
import Mathlib

/-!
# Calls do not look at their callers

A function sees its own variables and the globals.  The frames of its callers lie below its own, and look-up
never goes there: from the innermost frame it goes straight to the globals.  So a call has the same outcome
whatever its callers have bound, and since every call inside its body stands in the same position, nothing that
is called at any depth can tell the callers apart.

* `Outcome.Alike` — two outcomes say the same: one value, one fault, or neither is finished.
* `Machine.Akin` — two machines that a call cannot tell apart: the same globals, the same requests to stop.
* `Machine.Inside` — two executions of one body, each above the frames of its own caller.  This is the invariant
  of the two bodies (`respected_inside`); a call in them begins in machines that are akin (`Inside.akin`).
* **`call_isolated`** — a call gives the same value or the same fault from machines that are akin, and prints the
  same text.
-/

namespace Flowchart

variable {σ τ α : Type}

/-- Two outcomes say the same: the same value or the same fault, in states that are related, or neither of them
is finished. -/
def Outcome.Alike (R : σ → τ → Prop) : Outcome σ α → Outcome τ α → Prop
  | .done a s, .done b t => a = b ∧ R s t
  | .failed f s, .failed g t => f = g ∧ R s t
  | .unfinished, .unfinished => True
  | _, _ => False

/-- Agreement for one relation is agreement for every weaker one. -/
theorem Outcome.Sim.imp {S S' : Option Fault → σ → τ → Prop} {o : Outcome σ α} {o' : Outcome τ α}
    (h : o.Sim S o') (hS : ∀ f s t, S f s t → S' f s t) : o.Sim S' o' := by
  cases h with
  | done hst => exact .done (hS _ _ _ hst)
  | failed hst => exact .failed (hS _ _ _ hst)
  | unfinished => exact .unfinished

/-- Outcomes that agree in both directions say the same: neither can be finished without the other. -/
theorem Outcome.alike_of_sim {R : σ → τ → Prop} {o : Outcome σ α} {o' : Outcome τ α}
    (h : o.Sim (fun _ => R) o') (h' : o'.Sim (fun _ t s => R s t) o) : o.Alike R o' := by
  cases h with
  | done hst => exact ⟨rfl, hst⟩
  | failed hst => exact ⟨rfl, hst⟩
  | unfinished =>
    cases h' with
    | unfinished => trivial

namespace Machine

/-- What a call can see of a machine is the same in both: what the globals stand for, and the requests to stop. -/
structure Akin (m n : Machine) : Prop where
  globals_eq : ∀ name, m.scope.globals.get? name = n.scope.globals.get? name
  stopRequested_eq : m.stopRequested = n.stopRequested
  stopAfter_eq : m.stopAfter = n.stopAfter

theorem Akin.symm {m n : Machine} (h : m.Akin n) : n.Akin m :=
  ⟨fun name => (h.globals_eq name).symm, h.stopRequested_eq.symm, h.stopAfter_eq.symm⟩

/-- Two executions of one body, in which the same has happened since the two callers called: the same frame
stands above what each caller had bound, and the same text was printed after what each caller had printed. -/
structure Inside (caller caller' m n : Machine) : Prop where
  frame : ∃ frame, m.scope = caller.scope.push frame ∧ n.scope = caller'.scope.push frame
  loops_eq : m.loops = n.loops
  stopRequested_eq : m.stopRequested = n.stopRequested
  stopAfter_eq : m.stopAfter = n.stopAfter
  printed : ∃ text, m.output = caller.output ++ text ∧ n.output = caller'.output ++ text

/-- Two callers after their calls: each has its variables and loops as before, and both have printed the same
text. -/
structure Returned (caller caller' m n : Machine) : Prop where
  scope_eq : m.scope = caller.scope
  scope_eq' : n.scope = caller'.scope
  loops_eq : m.loops = caller.loops
  loops_eq' : n.loops = caller'.loops
  stopRequested_eq : m.stopRequested = n.stopRequested
  stopAfter_eq : m.stopAfter = n.stopAfter
  printed : ∃ text, m.output = caller.output ++ text ∧ n.output = caller'.output ++ text

variable {caller caller' m n : Machine}

/-! ### Inside two bodies -/

/-- In two bodies whose callers have the same globals, every name has the same value. -/
theorem Inside.get?_eq (h : Inside caller caller' m n) (hc : caller.Akin caller') (name : String) :
    m.scope.get? name = n.scope.get? name := by
  obtain ⟨frame, hm, hn⟩ := h.frame
  rw [hm, hn]
  show (frame.get? name).or (caller.scope.globals.get? name) =
    (frame.get? name).or (caller'.scope.globals.get? name)
  rw [hc.globals_eq name]

/-- Two machines inside two bodies are akin: a call made there is in the position that the first call was in. -/
theorem Inside.akin (h : Inside caller caller' m n) (hc : caller.Akin caller') : m.Akin n := by
  obtain ⟨frame, hm, hn⟩ := h.frame
  refine ⟨?_, h.stopRequested_eq, h.stopAfter_eq⟩
  rw [hm, hn]
  exact hc.globals_eq

/-- After a call made in two bodies the bodies are where they were, with more text printed. -/
theorem Inside.of_returned (h : Inside caller caller' m n) {m' n' : Machine} (hr : Returned m n m' n') :
    Inside caller caller' m' n' := by
  obtain ⟨frame, hm, hn⟩ := h.frame
  obtain ⟨text, htm, htn⟩ := h.printed
  obtain ⟨more, hmore, hmore'⟩ := hr.printed
  exact
    { frame := ⟨frame, hr.scope_eq.trans hm, hr.scope_eq'.trans hn⟩
      loops_eq := by rw [hr.loops_eq, hr.loops_eq', h.loops_eq]
      stopRequested_eq := hr.stopRequested_eq
      stopAfter_eq := hr.stopAfter_eq
      printed := ⟨text ++ more, by rw [hmore, htm, String.append_assoc], by
        rw [hmore', htn, String.append_assoc]⟩ }

/-- What blocks do, they do alike in two bodies. -/
theorem respected_inside (caller caller' : Machine) : Respected (fun _ => Inside caller caller') where
  bind := by
    intro m n h name v
    obtain ⟨frame, hm, hn⟩ := h.frame
    refine { h with frame := ⟨frame.bind name v, ?_, ?_⟩ }
    · show m.scope.set name v = _
      rw [hm]
      rfl
    · show n.scope.set name v = _
      rw [hn]
      rfl
  print := by
    intro m n h v
    obtain ⟨text, hm, hn⟩ := h.printed
    have hpush : ∀ before : String, (before ++ text ++ v.display).push '\n' =
        before ++ (text ++ v.display).push '\n' := by
      intro before
      rw [String.push_eq_append, String.push_eq_append, String.append_assoc, String.append_assoc,
        String.append_assoc]
    refine { h with printed := ⟨(text ++ v.display).push '\n', ?_, ?_⟩ }
    · show (m.output ++ v.display).push '\n' = _
      rw [hm, hpush]
    · show (n.output ++ v.display).push '\n' = _
      rw [hn, hpush]
  loops := fun m n h => h.loops_eq
  track := by
    intro m n h id outcome
    refine { h with loops_eq := ?_ }
    show trackLoop id outcome m.loops = trackLoop id outcome n.loops
    rw [h.loops_eq]
  poll := by
    intro m n h
    unfold Machine.poll
    rw [h.stopAfter_eq]
    cases n.stopAfter with
    | none => exact ⟨h, h.stopRequested_eq⟩
    | some k =>
      cases k with
      | zero => exact ⟨{ h with stopRequested_eq := rfl, stopAfter_eq := rfl }, rfl⟩
      | succ k => exact ⟨{ h with stopAfter_eq := rfl }, h.stopRequested_eq⟩

/-- Calls that cannot tell their callers apart make environments that agree in the two bodies. -/
theorem environment_sim_inside {calls : String → List Value → Action Machine Value}
    (h : ∀ name arguments m n, m.Akin n →
      (calls name arguments m).Sim (fun _ => Returned m n) (calls name arguments n))
    (hc : caller.Akin caller') :
    (environment calls).Sim (fun _ => Inside caller caller') (environment calls) where
  lookup := fun m n hmn name => hmn.get?_eq hc name
  undefined := fun _ _ hmn _ => hmn
  call := by
    intro name arguments m n hmn
    have hcall := h name arguments m n (hmn.akin hc)
    show (calls name arguments m).Sim _ (calls name arguments n)
    revert hcall
    generalize calls name arguments m = o
    generalize calls name arguments n = o'
    intro hcall
    cases hcall with
    | done hr => exact .done (hmn.of_returned hr)
    | failed hr => exact .failed (hmn.of_returned hr)
    | unfinished => exact .unfinished

/-! ### Calls -/

/-- The two callers get back what was theirs, and the value is read off the frame that both bodies had. -/
theorem returnFrom_sim_inside (f : Function) {o o' : Outcome Machine Unit}
    (h : o.Sim (fun _ => Inside caller caller') o') :
    (returnFrom f caller.loops o).Sim (fun _ => Returned caller caller')
      (returnFrom f caller'.loops o') := by
  have left : ∀ {m n : Machine}, Inside caller caller' m n →
      Returned caller caller' (m.leave caller.loops) (n.leave caller'.loops) := by
    intro m n hmn
    obtain ⟨frame, hm, hn⟩ := hmn.frame
    refine ⟨?_, ?_, rfl, rfl, hmn.stopRequested_eq, hmn.stopAfter_eq, hmn.printed⟩
    · show m.scope.pop = caller.scope
      rw [hm, Scope.pop_push]
    · show n.scope.pop = caller'.scope
      rw [hn, Scope.pop_push]
  cases h with
  | @done _ m n hmn =>
    obtain ⟨frame, hm, hn⟩ := hmn.frame
    have htop : m.scope.top? = n.scope.top? := by
      rw [hm, hn]
      rfl
    show (Outcome.done (f.result m.scope.top?) (m.leave caller.loops)).Sim _
      (Outcome.done (f.result n.scope.top?) (n.leave caller'.loops))
    rw [htop]
    exact .done (left hmn)
  | failed hmn => exact .failed (left hmn)
  | unfinished => exact .unfinished

/-- **A call cannot tell akin machines apart**, by induction on the room for nested calls: the two bodies stay
alike as long as the calls in them do. -/
theorem call_sim_of_akin (p : Program) (limit allowance room : Nat) (name : String) (arguments : List Value)
    (h : m.Akin n) :
    (call p limit allowance room name arguments m).Sim (fun _ => Returned m n)
      (call p limit allowance room name arguments n) := by
  induction room using Nat.strongRecOn generalizing name arguments m n with
  | ind room ih =>
    rw [call_eq, call_eq]
    cases ha : admission p limit room name arguments with
    | error f =>
      exact .failed ⟨rfl, rfl, rfl, rfl, h.stopRequested_eq, h.stopAfter_eq, "", by simp, by simp⟩
    | ok a =>
      have hcalls := fun name' arguments' (m' n' : Machine) (h' : m'.Akin n') =>
        ih a.room (room_lt_of_admission ha) name' arguments' h'
      have henv := environment_sim_inside hcalls h
      have hblocks := fun b => execute_sim (respected_inside m n) henv a.function.body b fun _ _ _ _ hmn => hmn
      have hentered : Inside m n (m.enter (a.function.frame name arguments))
          (n.enter (a.function.frame name arguments)) :=
        ⟨⟨_, rfl, rfl⟩, rfl, h.stopRequested_eq, h.stopAfter_eq, "", by simp [enter], by simp [enter]⟩
      exact returnFrom_sim_inside a.function
        (runBody_sim (respected_inside m n) (fun _ _ _ hmn => hmn) hblocks name _ a.finish (Nat.le_refl _) _
          hentered)

/-- **Calls do not look at their callers.**  From two machines whose globals stand for the same, with the same
requests to stop, however different the frames on top of the globals, the loops being executed and the text
printed so far, a call gives the same value or the same fault and prints the same text, or it comes to its end in
neither. -/
theorem call_isolated (p : Program) (limit allowance room : Nat) (name : String) (arguments : List Value)
    (hglobals : ∀ name, m.scope.globals.get? name = n.scope.globals.get? name)
    (hstop : m.stopRequested = n.stopRequested) (hafter : m.stopAfter = n.stopAfter) :
    (call p limit allowance room name arguments m).Alike
      (fun m' n' => ∃ text, m'.output = m.output ++ text ∧ n'.output = n.output ++ text)
      (call p limit allowance room name arguments n) := by
  have hakin : m.Akin n := ⟨hglobals, hstop, hafter⟩
  have there := call_sim_of_akin p limit allowance room name arguments hakin
  have back := call_sim_of_akin p limit allowance room name arguments hakin.symm
  exact Outcome.alike_of_sim (there.imp fun _ _ _ hr => hr.printed)
    (back.imp fun _ _ _ hr => hr.printed.imp fun _ => And.symm)

/-- A program with a function that gives the value of `x`, which is no variable of its own. -/
def readingGlobal : Program :=
  { functions := FunctionTable.ofList [
      { name := "f", returnType := .int, returnVariable := some "r",
        body :=
          { blocks := [⟨0, .start, ""⟩, ⟨1, .assignment, "r = x"⟩, ⟨2, .finish, ""⟩]
            edges := [⟨0, 1, none, none⟩, ⟨1, 2, none, none⟩] } }] }

/-- A machine that executes the main chart. -/
def onMain : Machine := { scope := { globals := [("x", .int 5)] } }

/-- A machine that executes a function with an `x` of its own, inside a loop and with something printed. -/
def inFunction : Machine :=
  { scope := { globals := [("x", .int 5)], frames := [⟨"g", [("x", .int 8)]⟩, ⟨"h", []⟩] }, output := "8\n",
    loops := [4] }

/-- From either machine the function gives the global `x`. -/
theorem call_isolated_readingGlobal :
    call readingGlobal 9 9 2 "f" [] inFunction = .done (.int 5) inFunction ∧
    (call readingGlobal 9 9 2 "f" [] onMain).Alike
      (fun m' n' => ∃ text, m'.output = onMain.output ++ text ∧ n'.output = inFunction.output ++ text)
      (call readingGlobal 9 9 2 "f" [] inFunction) :=
  ⟨by cbv, call_isolated readingGlobal 9 9 2 "f" [] (fun _ => rfl) rfl rfl⟩

end Machine

end Flowchart
