import Flowchart.Fault

/-!
# Actions

Executing a piece of a flowchart changes a state and gives a value, or fails, or goes on for longer than it
was allowed to.  A failed action keeps the state in which it failed: what was printed before a fault stays
printed.

* `Outcome` — the three ways in which an action ends.  `unfinished` means that the allowance was used up; it
  says nothing about what a longer run would have done.
* `Action` — a function from a state to an outcome, with the actions in sequence as its monad.
* `Action.lawful` — sequencing is associative, and an action that only gives a value is its unit.
-/

namespace Flowchart

/-- How an action ends. -/
inductive Outcome (σ α : Type) where
  | done (value : α) (state : σ)
  | failed (fault : Fault) (state : σ)
  | unfinished

/-- Something to be done in a state. -/
def Action (σ α : Type) := σ → Outcome σ α

/-- Goes on with a value, if there is one. -/
def Outcome.andThen {σ α β : Type} (o : Outcome σ α) (next : α → Action σ β) : Outcome σ β :=
  match o with
  | .done a s => next a s
  | .failed f s => .failed f s
  | .unfinished => .unfinished

namespace Action

variable {σ α β : Type}

/-- Actions in sequence: the second one begins in the state and with the value that the first one leaves. -/
instance : Monad (Action σ) where
  pure a := fun s => .done a s
  bind act next := fun s => (act s).andThen next

/-- The action that fails. -/
def fail (f : Fault) : Action σ α := fun s => .failed f s

/-- The action that looks at the state. -/
def observe (view : σ → α) : Action σ α := fun s => .done (view s) s

/-- The action that changes the state. -/
def update (change : σ → σ) : Action σ Unit := fun s => .done () (change s)

/-- A result that is known already, or a fault. -/
def ofExcept (r : Except Fault α) : Action σ α :=
  match r with
  | .ok a => pure a
  | .error f => fail f

@[simp] theorem pure_apply (a : α) (s : σ) : (pure a : Action σ α) s = .done a s := rfl

@[simp] theorem fail_apply (f : Fault) (s : σ) : (fail f : Action σ α) s = .failed f s := rfl

@[simp] theorem observe_apply (view : σ → α) (s : σ) : observe view s = .done (view s) s := rfl

@[simp] theorem update_apply (change : σ → σ) (s : σ) : update change s = .done () (change s) := rfl

@[simp] theorem bind_apply (act : Action σ α) (next : α → Action σ β) (s : σ) :
    (act >>= next) s = (act s).andThen next := rfl

@[simp] theorem map_apply (f : α → β) (act : Action σ α) (s : σ) :
    (f <$> act) s = (act s).andThen (fun a => (pure (f a) : Action σ β)) := rfl

/-- Sequencing is associative, with `pure` as its unit. -/
instance lawful : LawfulMonad (Action σ) :=
  LawfulMonad.mk' _
    (fun act => by
      funext s
      show (act s).andThen (fun a => (pure (id a) : Action σ _)) = act s
      cases act s <;> rfl)
    (fun a next => rfl)
    (fun act f g => by
      funext s
      show ((act s).andThen f).andThen g = (act s).andThen fun a => f a >>= g
      cases act s <;> rfl)

end Action

end Flowchart
