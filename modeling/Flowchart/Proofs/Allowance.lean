import Flowchart.Proofs.Calls

/-!
# A larger allowance changes no outcome

The allowance bounds how many blocks a body may execute.  It decides whether a call comes to its end, and
nothing else: what was finished within some allowance has the same outcome within any larger one.  So a block
that is finished within two allowances has one outcome, and it makes sense to speak of *the* outcome of a block.

* `Outcome.eq_of_sim` — with equal states, agreement is equality of what is finished.
* `Machine.call_sim_of_le` — calls, by induction on the room for nested calls.
* **`Machine.executeMain_unique`** — the outcome of a block of the main chart.
-/

namespace Flowchart

/-- Agreement in equal states: an outcome that is finished is the other outcome. -/
theorem Outcome.eq_of_sim {σ α : Type} {o o' : Outcome σ α} (h : o.Sim (fun _ => Eq) o')
    (hdone : o ≠ .unfinished) : o' = o := by
  cases h with
  | done hs => rw [hs]
  | failed hs => rw [hs]
  | unfinished => exact absurd rfl hdone

namespace Machine

/-- Blocks treat equal machines equally. -/
theorem respected_eq : Respected (fun _ => Eq) where
  bind := by
    rintro m _ rfl name v
    rfl
  print := by
    rintro m _ rfl v
    rfl
  loops := by
    rintro m _ rfl
    rfl
  track := by
    rintro m _ rfl id outcome
    rfl
  poll := by
    rintro m _ rfl
    exact ⟨rfl, rfl⟩

/-- Environments with calls that agree in equal states. -/
theorem environment_sim_eq {calls calls' : String → List Value → Action Machine Value}
    (h : ∀ name arguments, Action.Sim (fun _ => Eq) (calls name arguments) (calls' name arguments)) :
    (environment calls).Sim (fun _ => Eq) (environment calls') where
  lookup := by
    rintro m _ rfl name
    rfl
  undefined := fun _ _ hm _ => hm
  call := h

/-- Returning treats equal outcomes equally. -/
theorem returnFrom_sim (f : Function) (loops : List BlockId) {o o' : Outcome Machine Unit}
    (h : o.Sim (fun _ => Eq) o') : (returnFrom f loops o).Sim (fun _ => Eq) (returnFrom f loops o') := by
  cases h with
  | done hm =>
    subst hm
    exact .done rfl
  | failed hm =>
    subst hm
    exact .failed rfl
  | unfinished => exact .unfinished

/-- **A call that is finished within an allowance ends alike within every larger one.** -/
theorem call_sim_of_le (p : Program) (limit : Nat) {a b : Nat} (h : a ≤ b) (room : Nat) (name : String)
    (arguments : List Value) :
    Action.Sim (fun _ => Eq) (call p limit a room name arguments) (call p limit b room name arguments) := by
  induction room using Nat.strongRecOn generalizing name arguments with
  | ind room ih =>
    rintro m _ rfl
    rw [call_eq, call_eq]
    cases ha : admission p limit room name arguments with
    | error f => exact .failed rfl
    | ok adm =>
      have henv := environment_sim_eq fun name' arguments' =>
        ih adm.room (room_lt_of_admission ha) name' arguments'
      have hblocks := fun blk => execute_sim respected_eq henv adm.function.body blk fun _ _ _ _ hm => hm
      exact returnFrom_sim adm.function m.loops
        (runBody_sim respected_eq (fun _ _ _ hm => hm) hblocks name _ adm.finish h _ rfl)

theorem executeMain_of_le (p : Program) (limit : Nat) {a b : Nat} (h : a ≤ b) (blk : Block) (m : Machine)
    (hdone : executeMain p limit a blk m ≠ .unfinished) :
    executeMain p limit b blk m = executeMain p limit a blk m := by
  have henv := environment_sim_eq (call_sim_of_le p limit h limit)
  exact Outcome.eq_of_sim (execute_sim respected_eq henv p.main blk (fun _ _ _ _ hm => hm) m m rfl) hdone

/-- **A block of the main chart has one outcome**, whatever the allowances within which it is finished. -/
theorem executeMain_unique (p : Program) (limit : Nat) {a b : Nat} {blk : Block} {m : Machine}
    (ha : executeMain p limit a blk m ≠ .unfinished) (hb : executeMain p limit b blk m ≠ .unfinished) :
    executeMain p limit a blk m = executeMain p limit b blk m := by
  rcases Nat.le_total a b with h | h
  · exact (executeMain_of_le p limit h blk m ha).symm
  · exact executeMain_of_le p limit h blk m hb

end Machine

end Flowchart
