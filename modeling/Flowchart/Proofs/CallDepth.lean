import Flowchart.Proofs.Allowance

/-!
# Frames and calls go together

A function that calls functions puts frames on frames.  How deep calls are nested is watched by a count of its own,
and the frames are not looked at.  Here the two are brought together.

* `Machine.watching`, `Machine.watchedCall`, `Machine.watchedMain` — actions under a watch: an alarm is raised as soon
  as a call, or a block of a body, begins or ends in a machine that has not one frame for every call that is going
  on, or more of them than the limit allows.
* `Machine.AgreeAt` — actions that are the same on machines with a given number of frames, and leave that number.
  `execute_agree` and `runBody_agree` carry it from calls to blocks and from blocks to bodies.
* **`Machine.watchedCall_agree`** — the alarm is never raised, by induction on the calls that may still be nested.
-/

namespace Flowchart

variable {σ α : Type}

/-- Outcomes that agree in equal states, whichever of them is finished, are equal. -/
theorem Outcome.eq_of_sims {S S' : Option Fault → σ → σ → Prop} (hS : ∀ f s t, S f s t → s = t)
    {o o' : Outcome σ α} (h : o.Sim S o') (h' : o'.Sim S' o) : o' = o := by
  cases h with
  | done hs => rw [hS _ _ _ hs]
  | failed hs => rw [hS _ _ _ hs]
  | unfinished =>
    cases h' with
    | unfinished => rfl

namespace Machine

/-! ### Frames and depth -/

/-- Binding a variable adds no frame. -/
theorem depth_set (name : String) (v : Value) (s : Scope) : (s.set name v).depth = s.depth := by
  unfold Scope.set Scope.depth
  split
  · next h => rw [h]
  · next h => rw [h]; rfl

/-- Equal machines with a given number of frames. -/
def OnDepth (d : Nat) (_ : Option Fault) (m n : Machine) : Prop := m = n ∧ m.scope.depth = d

theorem respected_onDepth (d : Nat) : Respected (OnDepth d) where
  bind := by
    rintro m _ ⟨rfl, h⟩ name v
    exact ⟨rfl, (depth_set name v m.scope).trans h⟩
  print := by
    rintro m _ ⟨rfl, h⟩ v
    exact ⟨rfl, h⟩
  loops := by
    rintro m _ ⟨rfl, -⟩
    rfl
  track := by
    rintro m _ ⟨rfl, h⟩ id outcome
    exact ⟨rfl, h⟩
  poll := by
    rintro m _ ⟨rfl, h⟩
    refine ⟨⟨rfl, ?_⟩, rfl⟩
    unfold Machine.poll
    split <;> exact h

/-- On machines with a given number of frames two actions are one and the same, and they leave that number. -/
def AgreeAt (d : Nat) (act act' : Action Machine α) : Prop :=
  ∀ m, m.scope.depth = d → act' m = act m ∧ (act m).Ends fun n => n.scope.depth = d

/-- Such actions simulate each other. -/
theorem agreeAt_iff {d : Nat} {act act' : Action Machine α} :
    AgreeAt d act act' ↔ Action.Sim (OnDepth d) act act' ∧ Action.Sim (OnDepth d) act' act := by
  constructor
  · intro h
    constructor
    · rintro m _ ⟨rfl, hm⟩
      rw [(h m hm).1]
      exact Outcome.sim_of_ends (h m hm).2
    · rintro m _ ⟨rfl, hm⟩
      rw [(h m hm).1]
      exact Outcome.sim_of_ends (h m hm).2
  · rintro ⟨h, h'⟩ m hm
    have heq := Outcome.eq_of_sims (fun _ _ _ hs => hs.1) (h m m ⟨rfl, hm⟩) (h' m m ⟨rfl, hm⟩)
    have hsim := h m m ⟨rfl, hm⟩
    rw [heq] at hsim
    exact ⟨heq, Outcome.ends_of_sim hsim⟩

/-- Calls that agree make environments that do. -/
theorem environment_sim_onDepth {d : Nat} {calls calls' : String → List Value → Action Machine Value}
    (h : ∀ name arguments, Action.Sim (OnDepth d) (calls name arguments) (calls' name arguments)) :
    (environment calls).Sim (OnDepth d) (environment calls') where
  lookup := by
    rintro m _ ⟨rfl, -⟩ name
    rfl
  undefined := fun _ _ hm _ => hm
  call := h

/-- Calls that agree make blocks that do. -/
theorem execute_agree {d : Nat} {calls calls' : String → List Value → Action Machine Value}
    (h : ∀ name arguments, AgreeAt d (calls name arguments) (calls' name arguments)) (g : Graph) (b : Block) :
    AgreeAt d (execute (environment calls) g b) (execute (environment calls') g b) := by
  have hsims := fun name arguments => agreeAt_iff.mp (h name arguments)
  refine agreeAt_iff.mpr ⟨?_, ?_⟩
  · exact execute_sim (respected_onDepth d) (environment_sim_onDepth fun name arguments => (hsims name arguments).1)
      g b fun _ _ _ _ hm => hm
  · exact execute_sim (respected_onDepth d) (environment_sim_onDepth fun name arguments => (hsims name arguments).2)
      g b fun _ _ _ _ hm => hm

/-- Blocks that agree make bodies that do. -/
theorem runBody_agree {d : Nat} {step step' : Block → Action Machine Flow} (h : ∀ b, AgreeAt d (step b) (step' b))
    (name : String) (g : Graph) (finish : BlockId) (allowance : Nat) (id : Option BlockId) :
    AgreeAt d (runBody step name g finish allowance id) (runBody step' name g finish allowance id) := by
  have hsims := fun b => agreeAt_iff.mp (h b)
  refine agreeAt_iff.mpr ⟨fun m n hmn => ?_, fun m n hmn => ?_⟩
  · exact runBody_sim (respected_onDepth d) (fun _ _ _ hm => hm) (fun b => (hsims b).1) name g finish
      (Nat.le_refl _) id hmn
  · exact runBody_sim (respected_onDepth d) (fun _ _ _ hm => hm) (fun b => (hsims b).2) name g finish
      (Nat.le_refl _) id hmn

/-! ### Calls under a watch -/

/-- The number of frames is the one that is expected, and the limit allows it. -/
def Stands (limit depth : Nat) (m : Machine) : Prop := m.scope.depth = depth ∧ depth ≤ limit

instance (limit depth : Nat) (m : Machine) : Decidable (Stands limit depth m) :=
  inferInstanceAs (Decidable (_ ∧ _))

/-- An outcome under a watch: the alarm is raised if the number of frames is not the one that is expected. -/
def watched (alarm : Fault) (limit depth : Nat) : Outcome Machine α → Outcome Machine α
  | .done v m => if Stands limit depth m then .done v m else .failed alarm m
  | .failed f m => if Stands limit depth m then .failed f m else .failed alarm m
  | .unfinished => .unfinished

/-- An action under a watch: the alarm is raised if the number of frames is not the one that is expected, before the
action or after it. -/
def watching (alarm : Fault) (limit depth : Nat) (act : Action Machine α) : Action Machine α := fun m =>
  if Stands limit depth m then watched alarm limit depth (act m) else .failed alarm m

/-- A call under a watch, which goes on inside the body: over every call, and over every block.  The depth is that
of the machine in which the call is made. -/
def watchedCall (alarm : Fault) (p : Program) (limit allowance : Nat) :
    (room depth : Nat) → String → List Value → Action Machine Value
  | 0, depth, name, arguments => watching alarm limit depth (call p limit allowance 0 name arguments)
  | room + 1, depth, name, arguments =>
    watching alarm limit depth fun m =>
      match admission p limit (room + 1) name arguments with
      | .error f => .failed f m
      | .ok a =>
        let calls := watchedCall alarm p limit allowance room (depth + 1)
        let step b := watching alarm limit (depth + 1) (execute (environment calls) a.function.body b)
        returnFrom a.function m.loops
          (runBody step name a.function.body a.finish allowance (some a.start)
            (m.enter (a.function.frame name arguments)))

/-- A block of the main flowchart under a watch. -/
def watchedMain (alarm : Fault) (p : Program) (limit allowance : Nat) (b : Block) : Action Machine Flow :=
  watching alarm limit 0 (execute (environment (watchedCall alarm p limit allowance limit 0)) p.main b)

/-- Where the number of frames is right before and after an action, a watch over it changes nothing. -/
theorem watching_agree {limit d : Nat} (hd : d ≤ limit) (alarm : Fault) {act act' : Action Machine α}
    (h : AgreeAt d act act') : AgreeAt d act (watching alarm limit d act') := by
  intro m hm
  obtain ⟨heq, hends⟩ := h m hm
  refine ⟨?_, hends⟩
  unfold watching
  rw [if_pos ⟨hm, hd⟩, heq]
  revert hends
  cases act m with
  | done v n => exact fun hn => if_pos ⟨hn, hd⟩
  | failed f n => exact fun hn => if_pos ⟨hn, hd⟩
  | unfinished => exact fun _ => rfl

/-- A call leaves as many frames as there were. -/
theorem call_ends_depth (p : Program) (limit allowance room : Nat) (name : String) (arguments : List Value)
    {d : Nat} {m : Machine} (hm : m.scope.depth = d) :
    (call p limit allowance room name arguments m).Ends fun n => n.scope.depth = d := by
  refine (call_keeps p limit allowance room name arguments m).imp fun n hn => ?_
  rw [hn.scope_eq, hm]

/-- **Calls under a watch are calls**, by induction on the room for nested calls: inside a call there is one frame
more and one room less, and whatever the call did, the frame is gone afterwards. -/
theorem watchedCall_agree (alarm : Fault) (p : Program) {limit : Nat} (allowance : Nat) {room depth : Nat}
    (h : depth + room = limit) (name : String) (arguments : List Value) :
    AgreeAt depth (call p limit allowance room name arguments)
      (watchedCall alarm p limit allowance room depth name arguments) := by
  induction room generalizing depth name arguments with
  | zero =>
    exact watching_agree (by omega) alarm fun m hm => ⟨rfl, call_ends_depth p limit allowance 0 name arguments hm⟩
  | succ room ih =>
    refine watching_agree (by omega) alarm fun m hm => ⟨?_, call_ends_depth p limit allowance _ name arguments hm⟩
    rw [call_eq]
    cases ha : admission p limit (room + 1) name arguments with
    | error f => rfl
    | ok a =>
      obtain rfl : a.room = room := (Nat.succ.inj (of_admission ha).2.2.2).symm
      have hdeeper : depth + 1 + a.room = limit := by omega
      have hblocks := fun b => watching_agree (by omega : depth + 1 ≤ limit) alarm
        (execute_agree (ih hdeeper) a.function.body b)
      have hentered : (m.enter (a.function.frame name arguments)).scope.depth = depth + 1 := by
        show m.scope.depth + 1 = depth + 1
        rw [hm]
      have hbody := (runBody_agree hblocks name a.function.body a.finish allowance (some a.start) _ hentered).1
      dsimp only
      rw [hbody]
      rfl

/-- A block of the main flowchart under a watch is that block, where no function is being executed. -/
theorem watchedMain_eq (alarm : Fault) (p : Program) (limit allowance : Nat) (b : Block) {m : Machine}
    (hm : m.scope.depth = 0) : watchedMain alarm p limit allowance b m = executeMain p limit allowance b m :=
  (watching_agree (Nat.zero_le limit) alarm
    (execute_agree (watchedCall_agree alarm p allowance (Nat.zero_add limit)) p.main b) m hm).1

end Machine

end Flowchart
