import Flowchart.Proofs.Calls
import Flowchart.Proofs.Script.Labels

/-!
# Requests to stop inside calls

While a function is being executed, somebody may ask for an end.  The request is noticed before the next block of
a body, that body fails as cancelled, and so does every call around it; nothing on the way may take the fault for
another one, go on after it, or lose the request.

* `Machine.Asked` — a request to stop stands, or it is under way.
* `Machine.Heeded` — the invariant of everything that is evaluated and executed: a request stands exactly where
  the execution was cancelled, and no request is lost.  It is no invariant that polling keeps, since polling is
  what makes a request stand; so bodies go through `runBody_sim_of_poll`.
* **`call_heeds`, `executeMain_heeds`** — calls at any depth and blocks of the main chart keep it.
* `executeMain_of_not_asked` — where nobody asks for an end, nothing is cancelled.
* `call_of_stopRequested` — where a request stands already, a call executes no block.
-/

namespace Flowchart

variable {α : Type}

namespace Machine

/-- A request to stop stands, or it is under way. -/
def Asked (m : Machine) : Prop := m.stopRequested = true ∨ m.stopAfter ≠ none

/-- What was executed since a first machine has heeded the requests to stop: one stands now exactly if the
execution failed as cancelled, and if the first machine was asked to stop, so is this one. -/
def Heeded (first : Machine) (f : Option Fault) (m n : Machine) : Prop :=
  m = n ∧ (m.stopRequested = true ↔ f = some .cancelled) ∧ (first.Asked → m.Asked)

end Machine

/-- Where an action ends that began in a given machine, the requests to stop have been heeded. -/
def Outcome.Heeds (first : Machine) : Outcome Machine α → Prop
  | .done _ m => m.stopRequested = false ∧ (first.Asked → m.Asked)
  | .failed f m => (m.stopRequested = true ↔ f = .cancelled) ∧ (first.Asked → m.Asked)
  | .unfinished => True

/-- An outcome that agrees with itself has heeded the requests. -/
theorem Outcome.heeds_of_sim {first : Machine} {o : Outcome Machine α} (h : o.Sim first.Heeded o) :
    o.Heeds first := by
  cases o with
  | done a m =>
    cases h with
    | done hm => exact ⟨by simpa using hm.2.1, hm.2.2⟩
  | failed f m =>
    cases h with
    | failed hm => exact ⟨by simpa using hm.2.1, hm.2.2⟩
  | unfinished => trivial

namespace Machine

/-! ### Polling -/

/-- Polling loses no request. -/
theorem Asked.poll {m : Machine} (h : m.Asked) : m.poll.Asked := by
  unfold Machine.poll
  split
  · exact h
  · exact .inl rfl
  · exact .inr (Option.some_ne_none _)

/-- A request that stands goes on standing. -/
theorem poll_stopRequested {m : Machine} (h : m.stopRequested = true) : m.poll.stopRequested = true := by
  unfold Machine.poll
  split
  · exact h
  · rfl
  · exact h

theorem poll_output (m : Machine) : m.poll.output = m.output := by
  unfold Machine.poll
  split <;> rfl

theorem poll_scope (m : Machine) : m.poll.scope = m.scope := by
  unfold Machine.poll
  split <;> rfl

/-- What polling finds is heeded by failing as cancelled, or by going on. -/
theorem heeded_poll {first m n : Machine} (h : first.Heeded none m n) :
    m.poll.stopRequested = n.poll.stopRequested ∧
      (n.poll.stopRequested = true → first.Heeded (some .cancelled) m.poll n.poll) ∧
      (n.poll.stopRequested = false → first.Heeded none m.poll n.poll) := by
  obtain ⟨rfl, -, hasked⟩ := h
  refine ⟨rfl, fun hs => ⟨rfl, ?_, fun hf => (hasked hf).poll⟩, fun hs => ⟨rfl, ?_, fun hf => (hasked hf).poll⟩⟩
  · exact ⟨fun _ => rfl, fun _ => hs⟩
  · simp [hs]

/-- A fault other than a cancellation leaves the requests as they are. -/
theorem Heeded.fault {first m n : Machine} (h : first.Heeded none m n) {f : Fault} (hf : f ≠ .cancelled) :
    first.Heeded (some f) m n := by
  obtain ⟨rfl, hs, hasked⟩ := h
  refine ⟨rfl, ⟨fun hstop => ?_, fun hsome => absurd (Option.some.inj hsome) hf⟩, hasked⟩
  exact absurd (hs.mp hstop) (Option.some_ne_none _).symm

/-! ### Calls -/

/-- Blocks do not touch the requests. -/
theorem steady_heeded (first : Machine) : Steady first.Heeded where
  bind := by
    rintro m _ ⟨rfl, h⟩ name v
    exact ⟨rfl, h⟩
  print := by
    rintro m _ ⟨rfl, h⟩ v
    exact ⟨rfl, h⟩
  loops := by
    rintro m _ ⟨rfl, -⟩
    rfl
  track := by
    rintro m _ ⟨rfl, h⟩ id outcome
    exact ⟨rfl, h⟩

/-- Calls that heed the requests make an environment in which evaluation does. -/
theorem environment_sim_heeded {calls : String → List Value → Action Machine Value}
    (h : ∀ name arguments m, m.stopRequested = false → (calls name arguments m).Heeds m) (first : Machine) :
    (environment calls).Sim first.Heeded (environment calls) where
  lookup := by
    rintro m _ ⟨rfl, -⟩ name
    rfl
  undefined := fun _ _ hm _ => hm.fault Fault.noConfusion
  call := by
    rintro name arguments m _ ⟨rfl, hs, hasked⟩
    have hcall := h name arguments m (by simpa using hs)
    show (calls name arguments m).Sim _ (calls name arguments m)
    revert hcall
    generalize calls name arguments m = o
    intro hcall
    cases o with
    | done v n => exact .done ⟨rfl, by simpa using hcall.1, fun hf => hcall.2 (hasked hf)⟩
    | failed f n => exact .failed ⟨rfl, by simpa using hcall.1, fun hf => hcall.2 (hasked hf)⟩
    | unfinished => exact .unfinished

/-- The return to the caller leaves the requests and the fault as they are. -/
theorem returnFrom_heeds (f : Function) (loops : List BlockId) {first : Machine} {o : Outcome Machine Unit}
    (h : o.Heeds first) : (returnFrom f loops o).Heeds first := by
  cases o with
  | done u m => exact h
  | failed fault m => exact h
  | unfinished => trivial

/-- The check at the beginning of a call cancels nothing. -/
theorem admission_ne_cancelled {p : Program} {limit room : Nat} {name : String} {arguments : List Value} {f : Fault}
    (h : admission p limit room name arguments = .error f) : f ≠ .cancelled := by
  rcases fault_of_admission h with rfl | ⟨expected, rfl⟩ | rfl | rfl <;> exact Fault.noConfusion

/-- **Calls heed the requests to stop**, by induction on the room for nested calls.  A call that began without a
request and ends under one has been cancelled. -/
theorem call_heeds (p : Program) (limit allowance room : Nat) (name : String) (arguments : List Value) (m : Machine)
    (hm : m.stopRequested = false) : (call p limit allowance room name arguments m).Heeds m := by
  induction room using Nat.strongRecOn generalizing name arguments m with
  | ind room ih =>
    have hstart : m.Heeded none m m := ⟨rfl, by simp [hm], id⟩
    rw [call_eq]
    cases ha : admission p limit room name arguments with
    | error f =>
      obtain ⟨-, h⟩ := hstart.fault (admission_ne_cancelled ha)
      exact ⟨by simpa using h.1, h.2⟩
    | ok a =>
      have henv := environment_sim_heeded
        (fun name' arguments' n hn => ih a.room (room_lt_of_admission ha) name' arguments' n hn) m
      have hblocks := fun b => execute_sim_of_steady (steady_heeded m) henv a.function.body b
        fun _ hlabel _ _ hmn => hmn.fault (Block.instruction_error hlabel)
      have hentered : m.Heeded none (m.enter (a.function.frame name arguments))
          (m.enter (a.function.frame name arguments)) := ⟨rfl, hstart.2⟩
      exact returnFrom_heeds a.function m.loops <| Outcome.heeds_of_sim <|
        runBody_sim_of_poll (fun _ _ => heeded_poll) (fun _ hf _ _ hmn => hmn.fault hf) hblocks name _ a.finish
          (Nat.le_refl _) _ hentered

/-- **Blocks of the main chart heed the requests to stop.** -/
theorem executeMain_heeds (p : Program) (limit allowance : Nat) (b : Block) (m : Machine)
    (hm : m.stopRequested = false) : (executeMain p limit allowance b m).Heeds m := by
  have henv := environment_sim_heeded (call_heeds p limit allowance limit) m
  refine Outcome.heeds_of_sim (execute_sim_of_steady (steady_heeded m) henv p.main b ?_ m m ?_)
  · exact fun _ hlabel _ _ hmn => hmn.fault (Block.instruction_error hlabel)
  · exact ⟨rfl, by simp [hm], id⟩

/-! ### Where nobody asks -/

/-- While nobody asks for an end, polling finds nothing. -/
theorem poll_of_not_asked {m : Machine} (h : ¬m.Asked) : m.poll = m := by
  have hafter : m.stopAfter = none := Decidable.not_not.mp fun hne => h (.inr hne)
  unfold Machine.poll
  rw [hafter]

/-- Nothing that blocks do is a request. -/
theorem respected_not_asked : Respected (fun _ m n => m = n ∧ ¬m.Asked) where
  bind := by
    intro m n h name v
    obtain ⟨rfl, h⟩ := h
    exact ⟨rfl, h⟩
  print := by
    intro m n h v
    obtain ⟨rfl, h⟩ := h
    exact ⟨rfl, h⟩
  loops := by
    intro m n h
    rw [h.1]
  track := by
    intro m n h id outcome
    obtain ⟨rfl, h⟩ := h
    exact ⟨rfl, h⟩
  poll := by
    intro m n h
    obtain ⟨rfl, h⟩ := h
    rw [poll_of_not_asked h]
    exact ⟨⟨rfl, h⟩, rfl⟩

/-- Blocks whose calls make no request make none. -/
theorem execute_not_asked {calls : String → List Value → Action Machine Value}
    (h : ∀ name arguments m, ¬m.Asked → (calls name arguments m).Ends fun n => ¬n.Asked) (g : Graph) (b : Block) :
    Action.Sim (fun _ m n => m = n ∧ ¬m.Asked) (execute (environment calls) g b)
      (execute (environment calls) g b) := by
  have henv : (environment calls).Sim (fun _ m n => m = n ∧ ¬m.Asked) (environment calls) := {
    lookup := by
      intro m n hm name
      rw [hm.1]
    undefined := fun _ _ hm _ => hm
    call := by
      intro name arguments m n hm
      obtain ⟨rfl, hm⟩ := hm
      exact Outcome.sim_of_ends (h name arguments m hm) }
  exact execute_sim respected_not_asked henv g b fun _ _ _ _ hm => hm

/-- A call makes no request, by induction on the room for nested calls. -/
theorem call_not_asked (p : Program) (limit allowance room : Nat) (name : String) (arguments : List Value)
    (m : Machine) (hm : ¬m.Asked) : (call p limit allowance room name arguments m).Ends fun n => ¬n.Asked := by
  induction room using Nat.strongRecOn generalizing name arguments m with
  | ind room ih =>
    rw [call_eq]
    cases ha : admission p limit room name arguments with
    | error f => exact hm
    | ok a =>
      have hblocks := execute_not_asked (ih a.room (room_lt_of_admission ha)) a.function.body
      have hbody : (bodyOutcome p limit allowance name arguments a m).Ends fun n => ¬n.Asked :=
        Outcome.ends_of_sim <| runBody_sim respected_not_asked (fun _ _ _ hn => hn) hblocks name _ a.finish
          (Nat.le_refl _) _ (m := m.enter (a.function.frame name arguments)) ⟨rfl, hm⟩
      revert hbody
      dsimp only
      cases bodyOutcome p limit allowance name arguments a m with
      | done u n => exact id
      | failed f n => exact id
      | unfinished => exact id

/-- **Where nobody asks for an end nothing is cancelled**, and nobody has asked afterwards. -/
theorem executeMain_of_not_asked (p : Program) (limit allowance : Nat) (b : Block) {m : Machine} (hm : ¬m.Asked) :
    ((executeMain p limit allowance b m).Ends fun n => ¬n.Asked) ∧
      ∀ n, executeMain p limit allowance b m ≠ .failed .cancelled n := by
  have hends : (executeMain p limit allowance b m).Ends fun n => ¬n.Asked :=
    Outcome.ends_of_sim (execute_not_asked (call_not_asked p limit allowance limit) p.main b m m ⟨rfl, hm⟩)
  refine ⟨hends, fun n heq => ?_⟩
  have hstop : m.stopRequested = false := Bool.eq_false_iff.mpr fun hs => hm (.inl hs)
  have hheeds := executeMain_heeds p limit allowance b m hstop
  rw [heq] at hends hheeds
  exact hends (.inl (hheeds.1.mpr rfl))

/-! ### Under a request -/

/-- Before a block of a body a request that is due is noticed: the block is not executed. -/
theorem runBody_of_poll (step : Block → Action Machine Flow) (name : String) (g : Graph) {finish id : BlockId}
    (allowance : Nat) {m : Machine} (hid : id ≠ finish) (hs : m.poll.stopRequested = true) :
    runBody step name g finish (allowance + 1) (some id) m = .failed .cancelled m.poll := by
  simp only [runBody]
  rw [if_neg hid, if_pos hs]

/-- A body that is to be executed under a request executes none of its blocks: whatever its blocks would do, the
variables, the output and the request are what they were. -/
theorem runBody_of_stopRequested (step : Block → Action Machine Flow) (name : String) (g : Graph)
    (finish : BlockId) (allowance : Nat) (id : Option BlockId) {m : Machine} (hs : m.stopRequested = true) :
    (runBody step name g finish allowance id m).Ends fun n =>
      n.scope = m.scope ∧ n.output = m.output ∧ n.stopRequested = true := by
  cases allowance with
  | zero => trivial
  | succ allowance =>
    cases id with
    | none => exact ⟨rfl, rfl, hs⟩
    | some id =>
      by_cases hid : id = finish
      · simp only [runBody]
        rw [if_pos hid]
        exact ⟨rfl, rfl, hs⟩
      · rw [runBody_of_poll step name g allowance hid (poll_stopRequested hs)]
        exact ⟨poll_scope m, poll_output m, poll_stopRequested hs⟩

/-- **A call under a request executes no block**: it prints nothing, and the request goes on standing. -/
theorem call_of_stopRequested (p : Program) (limit allowance room : Nat) (name : String) (arguments : List Value)
    {m : Machine} (hs : m.stopRequested = true) :
    (call p limit allowance room name arguments m).Ends fun n => n.output = m.output ∧ n.stopRequested = true := by
  rw [call_eq]
  cases admission p limit room name arguments with
  | error f => exact ⟨rfl, hs⟩
  | ok a =>
    have hbody : (bodyOutcome p limit allowance name arguments a m).Ends _ :=
      runBody_of_stopRequested _ name a.function.body a.finish allowance (some a.start)
        (m := m.enter (a.function.frame name arguments)) hs
    revert hbody
    dsimp only
    generalize bodyOutcome p limit allowance name arguments a m = o
    intro hbody
    cases o with
    | done u n => exact hbody.2
    | failed f n => exact hbody.2
    | unfinished => trivial

end Machine

end Flowchart
