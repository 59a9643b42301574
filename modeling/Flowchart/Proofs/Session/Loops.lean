import Flowchart.Proofs.Allowance
import Flowchart.Proofs.Script.Refinement
import Flowchart.Proofs.Validated

/-!
# The two loops over the blocks of a chart

A session executes the blocks of the main chart and tells the host of each of them.  A body is executed by a loop of
its own.  The one looks for the end of the run behind every block, the other in front of every block; the one ends at
every end block, the other at the first one and carries out the others; a missing block is the end of a run and a fault
in a body.  In a chart whose edges lead to blocks, and in which nobody is asked for values, all of this comes to the
same.

* `Machine.runBody_of_le`, `Machine.runBody_unique` — a larger allowance changes nothing about a body.
* `Machine.execute_target` — control goes along an edge.
* `Graph.SelfContained` — a chart that has all it needs.
* `Session.asBody` — the blocks of the main chart, executed as those of a body.
* `Session.Pace`, `Session.pace` — what the two loops do at a block.
* **`Session.body_of_runLoop`, `Session.runLoop_of_body`** — a run of the session ends as the body does, and it ends if
  the body does.
-/

namespace Flowchart

/-! ### Bodies -/

theorem Action.Sim.refl {σ α : Type} (act : Action σ α) : Action.Sim (fun _ => Eq) act act := by
  rintro s _ rfl
  cases act s with
  | done a t => exact .done rfl
  | failed f t => exact .failed rfl
  | unfinished => exact .unfinished

/-- An outcome without a value is finished in one way. -/
theorem Outcome.Finishes.unique {σ α : Type} {o : Outcome σ α} {s s' : σ} {fault fault' : Option Fault}
    (h : o.Finishes s fault) (h' : o.Finishes s' fault') : s = s' ∧ fault = fault' := by
  cases h <;> cases h' <;> exact ⟨rfl, rfl⟩

namespace Machine

variable {step : Block → Action Machine Flow} {name : String} {g : Graph} {finish : BlockId}

/-- What is finished within some allowance ends alike within every larger one. -/
theorem runBody_of_le {a b : Nat} (h : a ≤ b) {id : Option BlockId} {m : Machine}
    (hdone : runBody step name g finish a id m ≠ .unfinished) :
    runBody step name g finish b id m = runBody step name g finish a id m :=
  Outcome.eq_of_sim
    (runBody_sim respected_eq (fun _ _ _ hm => hm) (fun b => .refl (step b)) name g finish h id rfl) hdone

/-- **A body is finished in one way**, whatever the allowances within which it is finished. -/
theorem runBody_unique {a b : Nat} {id : Option BlockId} {m n n' : Machine} {fault fault' : Option Fault}
    (ha : (runBody step name g finish a id m).Finishes n fault)
    (hb : (runBody step name g finish b id m).Finishes n' fault') : n = n' ∧ fault = fault' := by
  rcases Nat.le_total a b with h | h
  · rw [runBody_of_le h ha.ne_unfinished] at hb
    exact ha.unique hb
  · rw [runBody_of_le h hb.ne_unfinished] at ha
    exact ha.unique hb

/-- One block of a body, where nobody asks for an end. -/
theorem runBody_succ (step : Block → Action Machine Flow) (name : String) {id : BlockId} {b : Block} {m : Machine}
    (hm : ¬m.Asked) (hb : g.block? id = some b) (hne : id ≠ finish) (allowance : Nat) :
    runBody step name g finish (allowance + 1) (some id) m =
      match step b m with
      | .done (.next target) n => runBody step name g finish allowance target n
      | .done (.awaitInput names) n => .failed (.inputInsideCall name (names.headD "")) n
      | .failed f n => .failed f n
      | .unfinished => .unfinished := by
  have hstop : m.stopRequested = false := Bool.eq_false_iff.mpr fun hs => hm (.inl hs)
  rw [runBody, if_neg hne]
  dsimp only
  rw [poll_of_not_asked hm, hstop, if_neg Bool.false_ne_true]
  exact hb ▸ rfl

/-- **Control goes along an edge** of the block that is left. -/
theorem perform_target {env : Environment Machine} {id t : BlockId} {i : Instruction} {m n : Machine}
    (h : perform env g id i m = .done (.next (some t)) n) : t ∈ g.targets id := by
  by_cases hbranching : i.kind.isBranching = true
  · rw [perform_test env g id hbranching] at h
    obtain ⟨outcome, k, -, h⟩ := Action.exists_of_bind_done h
    have hafter : g.afterCondition id outcome = some t := by
      injection h with h
      injection h
    rcases Option.or_eq_some_iff.mp hafter with htarget | ⟨-, htarget⟩
    · exact Graph.mem_targets_of_branchTarget htarget
    · exact Graph.mem_targets_of_successor htarget
  · by_cases hfinish : i.kind = .finish
    · cases i with
      | finish => cases h
      | _ => cases hfinish
    · exact Graph.mem_targets_of_successor
        (perform_successor (Bool.eq_false_iff.mpr hbranching) hfinish h).symm

theorem execute_target {env : Environment Machine} {b : Block} {t : BlockId} {m n : Machine}
    (h : execute env g b m = .done (.next (some t)) n) : t ∈ g.targets b.id := by
  obtain ⟨i, -, h⟩ := exists_of_execute_done h
  exact perform_target h

end Machine

/-! ### Charts that have all they need -/

/-- The blocks of a chart have numbers of their own, two of them are its ends, its edges lead to blocks, and at none of
them is anybody asked for a value. -/
structure Graph.SelfContained (g : Graph) : Prop where
  nodup : (g.blocks.map Block.id).Nodup
  start : g.start?.isSome
  finish : g.finish?.isSome
  target : ∀ e ∈ g.edges, (g.block? e.target).isSome
  asksNothing : ∀ b ∈ g.blocks, b.kind ≠ .input

namespace Graph.SelfContained

variable {g : Graph} (hg : g.SelfContained)
include hg

theorem exists_target {id t : BlockId} (h : t ∈ g.targets id) : ∃ b, g.block? t = some b := by
  obtain ⟨e, he, rfl⟩ := List.mem_map.mp h
  exact Option.isSome_iff_exists.mp (hg.target e (Graph.mem_outgoing.mp he).1)

/-- The first block of a kind is found by its number. -/
theorem exists_of_firstOf? {kind : BlockKind} {id : BlockId} (h : g.firstOf? kind = some id) :
    ∃ b, g.block? id = some b ∧ b.id = id ∧ b.kind = kind := by
  obtain ⟨b, hb, hkind, rfl⟩ := Graph.exists_of_firstOf? h
  exact ⟨b, Graph.block?_of_mem hg.nodup hb, rfl, hkind⟩

theorem ne_finish {finish : BlockId} (h : g.finish? = some finish) {b : Block} (hb : g.block? b.id = some b)
    (hkind : b.kind ≠ .finish) : b.id ≠ finish := by
  obtain ⟨last, hlast, -, hlastKind⟩ := hg.exists_of_firstOf? h
  rintro rfl
  cases hb.symm.trans hlast
  exact hkind hlastKind

end Graph.SelfContained

namespace Session

/-! ### At a block -/

/-- The blocks of the main chart, executed as those of a body. -/
def asBody (allowance : Nat) (name : String) (finish : BlockId) (s : Session) :
    Nat → Option BlockId → Machine → Outcome Machine Unit :=
  Machine.runBody (Machine.executeMain s.program s.setup.callLimit allowance) name s.program.main finish

/-- What the two loops do at a block. -/
inductive Pace (allowance : Nat) (name : String) (finish : BlockId) (s : Session) (b : Block) (m : Machine) :
    Prop where
  /-- The block fails. -/
  | fails {f : Fault} {n : Machine}
      (run : (s.facing b.id m).executeStep allowance {} = some ((s.facing b.id n).fail f))
      (body : ∀ k, s.asBody allowance name finish (k + 1) (some b.id) m = .failed f n)
  /-- The path ends behind the block, or an end block comes next. -/
  | arrives {n : Machine} {last : Option BlockId}
      (run : (s.facing b.id m).executeStep allowance {} =
        some (({ s with machine := n, current := last } : Session).halt.1,
          [.step b n.scope.snapshot n.output, .complete]))
      (body : ∀ k, s.asBody allowance name finish (k + 3) (some b.id) m = .done () n)
  /-- Another block comes next. -/
  | goesOn {b' : Block} {n : Machine} (found : s.program.main.block? b'.id = some b') (kind : b'.kind ≠ .finish)
      (quiet : ¬n.Asked)
      (run : (s.facing b.id m).executeStep allowance {} =
        some (s.facing b'.id n, [.step b n.scope.snapshot n.output]))
      (body : ∀ k, s.asBody allowance name finish (k + 1) (some b.id) m =
        s.asBody allowance name finish k (some b'.id) n)
  /-- A call on the block needs more than the allowance. -/
  | hangs (run : (s.facing b.id m).executeStep allowance {} = none)
      (body : ∀ k, s.asBody allowance name finish (k + 1) (some b.id) m = .unfinished)

variable {s : Session} {allowance : Nat} {name : String} {finish : BlockId} {b : Block} {m : Machine}

/-- In a body an end block leads to the end, be it the first one or not. -/
theorem asBody_of_finish (hm : ¬m.Asked)
    (hb : s.program.main.block? b.id = some b) (hkind : b.kind = .finish) (k : Nat) :
    s.asBody allowance name finish (k + 2) (some b.id) m = .done () m := by
  unfold asBody
  by_cases hne : b.id = finish
  · rw [Machine.runBody, if_pos hne]
  · have hlabel : b.instruction = .ok .finish := by
      unfold Block.instruction
      rw [hkind]
      rfl
    have hstep : Machine.executeMain s.program s.setup.callLimit allowance b m = .done (.next none) m := by
      unfold Machine.executeMain Machine.execute
      rw [hlabel]
      rfl
    rw [Machine.runBody_succ _ name hm hb hne, hstep]
    rfl

/-- A block that is not finished leaves the run without an answer. -/
theorem runLoop_of_none {fuel told : Nat} {events : List Event} (hs : s.state = .running)
    (hp : s.pauseRequested = false) (h : s.executeStep allowance {} = none) :
    runLoop allowance .silent (fuel + 1) told events s = none := by
  have hsilent : Listener.silent told = {} := rfl
  rw [runLoop, if_neg (by simpa using hs), hp, if_neg Bool.false_ne_true, hsilent, h]

/-- **The two loops keep pace**, where nobody asks for an end. -/
theorem pace (hg : s.program.main.SelfContained) (hfinish : s.program.main.finish? = some finish) (hm : ¬m.Asked)
    (hb : s.program.main.block? b.id = some b) (hkind : b.kind ≠ .finish) (allowance : Nat) (name : String) :
    s.Pace allowance name finish b m := by
  have hstop : (s.facing b.id m).machine.stopRequested = false := Bool.eq_false_iff.mpr fun hs => hm (.inl hs)
  have hnext := nextBlock?_facing hb hkind m
  have hbody := Machine.runBody_succ (Machine.executeMain s.program s.setup.callLimit allowance) name hm hb
    (hg.ne_finish hfinish hb hkind)
  obtain ⟨hends, hcancelled⟩ := Machine.executeMain_of_not_asked s.program s.setup.callLimit allowance b hm
  cases hstep : Machine.executeMain s.program s.setup.callLimit allowance b m with
  | unfinished =>
    rw [hstep] at hbody
    exact .hangs (executeStep_of_unfinished (Bool.eq_false_iff.mp hstop) hnext hstep) hbody
  | failed f n =>
    rw [hstep] at hbody
    have hf : f ≠ .cancelled := by
      rintro rfl
      exact hcancelled n hstep
    exact .fails (executeStep_of_failed hstop hnext hf hstep) hbody
  | done flow n =>
    rw [hstep] at hbody hends
    cases flow with
    | awaitInput names =>
      have hinput := Block.kind_of_instruction (Machine.executeMain_awaits hstep).1
      exact absurd hinput.symm (hg.asksNothing b (Graph.mem_of_block? hb).1)
    | next target =>
      have hrun := executeStep_of_done (r := {}) hstop hnext hstep
      cases target with
      | none =>
        exact .arrives (hrun.trans (congrArg some (arrive_of_none rfl))) fun k => (hbody (k + 2)).trans rfl
      | some t =>
        obtain ⟨b', hb'⟩ := hg.exists_target (Machine.execute_target hstep)
        obtain rfl := (Graph.mem_of_block? hb').2
        by_cases hkind' : b'.kind = .finish
        · have harrive := arrive_of_none (b := b) (nextBlock?_facing_finish hb' hkind' n)
          exact .arrives (hrun.trans (congrArg some harrive)) fun k =>
            (hbody (k + 2)).trans (asBody_of_finish hends hb' hkind' k)
        · have harrive := arrive_of_some (b := b) (nextBlock?_facing hb' hkind' n)
          exact .goesOn hb' hkind' hends (hrun.trans (congrArg some harrive)) hbody

/-! ### From block to block -/

/-- **A run that is over was that of a body which is finished**, and it ended in the same way.  The induction is on the
number of blocks that the run may still take. -/
theorem body_of_runLoop (hg : s.program.main.SelfContained) (hfinish : s.program.main.finish? = some finish)
    (hstate : s.state = .running) (hpause : s.pauseRequested = false) (name : String) {fuel told : Nat}
    {events : List Event} {x : Session × List Event} (hm : ¬m.Asked) (hb : s.program.main.block? b.id = some b)
    (hkind : b.kind ≠ .finish) (h : runLoop allowance .silent fuel told events (s.facing b.id m) = some x) :
    ∃ n fault, (s.asBody allowance name finish (fuel + 1) (some b.id) m).Finishes n fault ∧
      EndsAs n.store fault events (some x) := by
  induction fuel generalizing b m told events with
  | zero => cases h
  | succ fuel ih =>
    cases pace hg hfinish hm hb hkind allowance name with
    | @fails f n run body =>
      rw [runLoop_succ (s := s.facing b.id m) hstate hpause run] at h
      cases fuel with
      | zero => cases h
      | succ fuel =>
        rw [runLoop_of_idle rfl] at h
        cases h
        exact ⟨n, some f, by rw [body]; exact .failed, .of_idle rfl rfl⟩
    | @arrives n last run body =>
      rw [runLoop_succ (s := s.facing b.id m) hstate hpause run] at h
      cases fuel with
      | zero => cases h
      | succ fuel =>
        rw [runLoop_of_idle rfl] at h
        cases h
        exact ⟨n, none, by rw [body]; exact .done, .of_idle rfl rfl⟩
    | @goesOn b' n found kind quiet run body =>
      rw [runLoop_succ (s := s.facing b.id m) hstate hpause run] at h
      obtain ⟨k, fault, hfinishes, hends⟩ := ih quiet found kind h
      exact ⟨k, fault, by rw [body]; exact hfinishes, hends.reported rfl⟩
    | hangs run body =>
      rw [runLoop_of_none (s := s.facing b.id m) hstate hpause run] at h
      cases h

/-- **A run is over as soon as the body is finished.** -/
theorem runLoop_of_body (hg : s.program.main.SelfContained) (hfinish : s.program.main.finish? = some finish)
    (hstate : s.state = .running) (hpause : s.pauseRequested = false) {k : Nat} (told : Nat)
    (events : List Event) {n : Machine} {fault : Option Fault} (hm : ¬m.Asked)
    (hb : s.program.main.block? b.id = some b) (hkind : b.kind ≠ .finish)
    (h : (s.asBody allowance name finish k (some b.id) m).Finishes n fault) :
    ∃ x, runLoop allowance .silent (k + 1) told events (s.facing b.id m) = some x := by
  induction k generalizing b m told events with
  | zero => cases h
  | succ k ih =>
    cases pace hg hfinish hm hb hkind allowance name with
    | fails run body =>
      rw [runLoop_succ (s := s.facing b.id m) hstate hpause run]
      exact ⟨_, runLoop_of_idle rfl⟩
    | arrives run body =>
      rw [runLoop_succ (s := s.facing b.id m) hstate hpause run]
      exact ⟨_, runLoop_of_idle rfl⟩
    | goesOn found kind quiet run body =>
      rw [body] at h
      rw [runLoop_succ (s := s.facing b.id m) hstate hpause run]
      exact ih _ _ quiet found kind h
    | hangs run body =>
      rw [body] at h
      cases h

end Session

end Flowchart
