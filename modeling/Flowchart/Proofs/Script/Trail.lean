import Flowchart.Proofs.Script.Semantics
import Flowchart.Proofs.Simulation

/-!
# Trails through a chart

While a script runs, the machine goes from block to block.  A trail is such a way through a chart, told with the
store of the script at every block: it arrives where the script is left, or breaks off at a block that fails.

* `Store.machine` — the machine with a store and a list of loops, without any request to stop; `Machine.store`.
* `Trail` — the way from one block to an exit, with a bound on the number of blocks and with the outcome of the
  script.  Nothing is said about a script that is unfinished.
* **`Trail.andThen`** — one trail after the other.
* `Lands`, **`Trail.hop`** — one block at the beginning of a trail: what it does to the store is an action of the
  script, and the value of that action decides where control goes.
* **`Machine.runBody_of_trail`** — a function body that goes along a trail has the outcome of the script.
-/

namespace Flowchart

/-- The machine with a store and a list of loops, without any request to stop. -/
def Store.machine (loops : List BlockId) (s : Store) : Machine := { scope := s.scope, output := s.output, loops }

/-- What statements read and change of a machine. -/
def Machine.store (m : Machine) : Store := ⟨m.scope, m.output⟩

/-- Nobody stops such a machine. -/
theorem Store.poll_machine (loops : List BlockId) (s : Store) : (s.machine loops).poll = s.machine loops := rfl

/-- The way from a block, inside of some loops, to an exit inside of other loops.  The number bounds the blocks
on the way.  End blocks are not passed, and nobody stops the machine. -/
inductive Trail (step : Block → Action Machine Flow) (g : Graph) (exit : BlockId) (loops : List BlockId) :
    Nat → BlockId → List BlockId → Store → Outcome Store Unit → Prop where
  | arrived {n : Nat} {s : Store} : Trail step g exit loops n exit loops s (.done () s)
  | unfinished {n : Nat} {id : BlockId} {inside : List BlockId} {s : Store} :
      Trail step g exit loops n id inside s .unfinished
  | failed {n : Nat} {b : Block} {inside inside' : List BlockId} {s t : Store} {f : Fault}
      (hb : g.block? b.id = some b) (hkind : b.kind ≠ .finish)
      (hstep : step b (s.machine inside) = .failed f (t.machine inside')) (hf : f ≠ .cancelled) :
      Trail step g exit loops (n + 1) b.id inside s (.failed f t)
  | next {n : Nat} {b : Block} {id : BlockId} {inside inside' : List BlockId} {s t : Store}
      {o : Outcome Store Unit} (hb : g.block? b.id = some b) (hkind : b.kind ≠ .finish)
      (hstep : step b (s.machine inside) = .done (.next (some id)) (t.machine inside'))
      (h : Trail step g exit loops n id inside' t o) : Trail step g exit loops (n + 1) b.id inside s o

/-- What a block does to the machine is what an action does to the store: if the action gives a value, control
goes to the block for that value, inside the loops for that value. -/
def Lands {α : Type} (target : α → BlockId) (loops : α → List BlockId) :
    Outcome Store α → Outcome Machine Flow → Prop
  | .done a s, o => o = .done (.next (some (target a))) (s.machine (loops a))
  | .failed f s, o => f ≠ .cancelled ∧ ∃ inside, o = .failed f (s.machine inside)
  | .unfinished, _ => True

namespace Trail

variable {step : Block → Action Machine Flow} {g : Graph} {exit id : BlockId} {loops inside : List BlockId}
  {s : Store} {o : Outcome Store Unit}

/-- A bound may be relaxed. -/
theorem mono {n k : Nat} (h : Trail step g exit loops n id inside s o) (hle : n ≤ k) :
    Trail step g exit loops k id inside s o := by
  induction h generalizing k with
  | arrived => exact .arrived
  | unfinished => exact .unfinished
  | failed hb hkind hstep hf =>
    obtain ⟨k, rfl⟩ : ∃ k', k = k' + 1 := ⟨k - 1, by omega⟩
    exact .failed hb hkind hstep hf
  | next hb hkind hstep _ ih =>
    obtain ⟨k, rfl⟩ : ∃ k', k = k' + 1 := ⟨k - 1, by omega⟩
    exact .next hb hkind hstep (ih (by omega))

/-- Where a trail stands before its exit, there is a block to execute. -/
theorem block_of_ne {n : Nat} (h : Trail step g exit loops n id inside s o) (hne : id ≠ exit)
    (ho : o ≠ .unfinished) : ∃ b, b.id = id ∧ g.block? b.id = some b ∧ b.kind ≠ .finish := by
  cases h with
  | arrived => exact absurd rfl hne
  | unfinished => exact absurd rfl ho
  | @failed _ b _ _ _ _ _ hb hkind _ _ => exact ⟨b, rfl, hb, hkind⟩
  | @next _ b _ _ _ _ _ _ hb hkind _ _ => exact ⟨b, rfl, hb, hkind⟩

/-- A trail that stands at an end block has arrived. -/
theorem eq_done_of_finish {n : Nat} {finish : Block} (h : Trail step g exit loops n id inside s o)
    (hid : id = exit) (hfinish : g.block? exit = some finish) (hkind : finish.kind = .finish)
    (ho : o ≠ .unfinished) : o = .done () s := by
  have habsurd : ∀ {b : Block}, b.id = exit → g.block? b.id = some b → b.kind ≠ .finish → False := by
    intro b hb hfound hne
    rw [hb, hfinish] at hfound
    cases hfound
    exact hne hkind
  cases h with
  | arrived => rfl
  | unfinished => exact absurd rfl ho
  | failed hb hkind' _ _ => exact (habsurd hid hb hkind').elim
  | next hb hkind' _ _ => exact (habsurd hid hb hkind').elim

/-- **A trail goes on where another one arrives.** -/
theorem andThen {n k : Nat} {exit' : BlockId} {loops' : List BlockId} {rest : Action Store Unit}
    (h : Trail step g exit loops n id inside s o)
    (hrest : ∀ t, Trail step g exit' loops' k exit loops t (rest t)) :
    Trail step g exit' loops' (n + k) id inside s (o.andThen fun _ => rest) := by
  induction h with
  | arrived => exact (hrest _).mono (by omega)
  | unfinished => exact .unfinished
  | @failed n _ _ _ _ _ _ hb hkind hstep hf =>
    rw [Nat.succ_add]
    exact .failed hb hkind hstep hf
  | @next n _ _ _ _ _ _ _ hb hkind hstep _ ih =>
    rw [Nat.succ_add]
    exact .next hb hkind hstep ih

/-- **One block at the beginning of a trail.**  The block does what an action of the script does, and the trail
goes on from where the value of the action leads. -/
theorem hop {α : Type} {n : Nat} {b : Block} {target : α → BlockId} {landing : α → List BlockId}
    {front : Action Store α} {rest : α → Action Store Unit} (hb : g.block? b.id = some b)
    (hkind : b.kind ≠ .finish) (hlands : Lands target landing (front s) (step b (s.machine inside)))
    (hrest : ∀ a t, Trail step g exit loops n (target a) (landing a) t (rest a t)) :
    Trail step g exit loops (n + 1) b.id inside s ((front s).andThen rest) := by
  cases hfront : front s with
  | done a t =>
    rw [hfront] at hlands
    exact .next hb hkind hlands (hrest a t)
  | failed f t =>
    rw [hfront] at hlands
    obtain ⟨hf, inside', hstep⟩ := hlands
    exact .failed hb hkind hstep hf
  | unfinished => exact .unfinished

end Trail

namespace Machine

/-- Where a script and a machine end alike: the store is the one in the machine, and nobody stopped it. -/
def Shares (e : Option Fault) (s : Store) (m : Machine) : Prop :=
  (∃ inside, m = s.machine inside) ∧ e ≠ some .cancelled

/-- **A body along a trail has the outcome of the script**, given an allowance of one block more than the trail
may need. -/
theorem runBody_of_trail {step : Block → Action Machine Flow} {g : Graph} {finish : Block} (name : String)
    {n allowance : Nat} {id : BlockId} {loops inside : List BlockId} {s : Store} {o : Outcome Store Unit}
    (hfinish : g.block? finish.id = some finish) (hkind : finish.kind = .finish)
    (h : Trail step g finish.id loops n id inside s o) (hle : n + 1 ≤ allowance) :
    o.Sim Shares (runBody step name g finish.id allowance (some id) (s.machine inside)) := by
  -- A block that is executed is not the end block.
  have hne : ∀ {b : Block}, g.block? b.id = some b → b.kind ≠ .finish → b.id ≠ finish.id := by
    intro b hb hkind' hid
    rw [hid, hfinish] at hb
    cases hb
    exact hkind' hkind
  induction h generalizing allowance with
  | arrived =>
    obtain ⟨a, rfl⟩ : ∃ a, allowance = a + 1 := ⟨allowance - 1, by omega⟩
    unfold runBody
    rw [if_pos rfl]
    exact .done ⟨⟨_, rfl⟩, Option.some_ne_none _ |>.symm⟩
  | unfinished => exact .unfinished
  | failed hb hkind' hstep hf =>
    obtain ⟨a, rfl⟩ : ∃ a, allowance = a + 1 := ⟨allowance - 1, by omega⟩
    unfold runBody
    rw [if_neg (hne hb hkind')]
    dsimp only
    rw [Store.poll_machine, if_neg (show ¬((_ : Store).machine _).stopRequested = true from Bool.false_ne_true), hb]
    dsimp only
    rw [hstep]
    exact .failed ⟨⟨_, rfl⟩, by simpa using hf⟩
  | next hb hkind' hstep _ ih =>
    obtain ⟨a, rfl⟩ : ∃ a, allowance = a + 1 := ⟨allowance - 1, by omega⟩
    unfold runBody
    rw [if_neg (hne hb hkind')]
    dsimp only
    rw [Store.poll_machine, if_neg (show ¬((_ : Store).machine _).stopRequested = true from Bool.false_ne_true), hb]
    dsimp only
    rw [hstep]
    exact ih (by omega)

end Machine

end Flowchart
