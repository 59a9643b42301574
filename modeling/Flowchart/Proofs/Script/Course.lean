import Flowchart.Proofs.Script.Blocks

/-!
# The course of a script through a chart

The machine sees numbers, edges and one list of loops.  For a chart that shows a script this is enough: wherever
the script is entered, inside whatever loops, the blocks on the way do to the machine what the statements do to
the store, and the list of loops is back to what it was where the script is left.

* `Script.cost` — how many blocks a script may take.
* `Script.choice_trail` — a choice, from its condition through either branch and its merge block.
* `Script.loop_trail`, `Script.doLoop_trail` — loops, by induction on their rounds.
* **`Script.trail`** — a script that is laid out is a trail, by induction on the script.  The invariant ties the
  list of loops to the loops around the script: exactly these are on the list, at the entry and at the exit.
* **`Outline.trail`** — the same for a whole chart, from its start block to its end block.
-/

namespace Flowchart

namespace Script

/-- The blocks that a script may take, if its loops take so many rounds. -/
def cost (rounds : Nat) : Script → Nat
  | done => 0
  | simple _ _ next => 1 + next.cost rounds
  | choice _ _ yes no next => 1 + (yes.cost rounds + no.cost rounds) + (1 + next.cost rounds)
  | loop _ _ body next => rounds * (body.cost rounds + 1) + 1 + next.cost rounds
  | doLoop _ _ body next => 1 + body.cost rounds + (rounds * (body.cost rounds + 2) + 1) + next.cost rounds

section Trails

variable {env : Environment Store} {env' : Environment Machine} {g : Graph}

/-- **A choice is a trail** from its condition to whatever comes behind its merge block. -/
theorem choice_trail {test join : Node} {exit whenTrue whenFalse after : BlockId} {loops : List BlockId}
    {a b c : Nat} {yes no next : Action Store Unit} (henv : ∀ inside, env.Sim (Same inside) env')
    (htest : g.block? test.id = some (test.block .conditional))
    (hjoin : g.block? join.id = some (join.block .merge)) (hforks : g.Forks test.id whenTrue whenFalse)
    (hleads : g.Leads join.id after)
    (hyes : ∀ s, Trail (Machine.execute env' g) g join.id loops a whenTrue loops s (yes s))
    (hno : ∀ s, Trail (Machine.execute env' g) g join.id loops b whenFalse loops s (no s))
    (hnext : ∀ s, Trail (Machine.execute env' g) g exit loops c after loops s (next s)) (s : Store) :
    Trail (Machine.execute env' g) g exit loops (1 + (a + b) + (1 + c)) test.id loops s
      ((Script.test env (test.block .conditional) s).andThen fun outcome =>
        (if outcome then yes else no : Action Store Unit) >>= fun _ => next) := by
  -- Behind either branch, the merge block leads to the rest.
  have hmerge : ∀ t, Trail (Machine.execute env' g) g exit loops (1 + c) join.id loops t (next t) := by
    intro t
    have hpass : Machine.execute env' g (join.block .merge) (t.machine loops) = _ :=
      execute_merge (.inl rfl) hleads _
    rw [Nat.add_comm]
    exact .next (b := join.block .merge) hjoin BlockKind.noConfusion hpass (hnext t)
  rw [show 1 + (a + b) + (1 + c) = (a + b) + (1 + c) + 1 by omega]
  refine Trail.hop (b := test.block .conditional) htest BlockKind.noConfusion
    (lands_test (henv loops) (.inl rfl) hforks) ?_
  intro outcome t
  cases outcome with
  | true => exact ((hyes t).mono (Nat.le_add_right _ _)).andThen hmerge
  | false => exact ((hno t).mono (Nat.le_add_left _ _)).andThen hmerge

/-- **A loop is a trail** from its head to the block behind it, by induction on the rounds.  The head is reached
from outside before the first round and from the body afterwards. -/
theorem loop_trail {b : Block} {i : Instruction} {loops : List BlockId} {inner after : BlockId} {cost : Nat}
    {body : Action Store Unit} (henv : ∀ inside, env.Sim (Same inside) env') (hb : g.block? b.id = some b)
    (hkind : b.kind = .loop ∨ b.kind = .forLoop) (hi : b.instruction = .ok i) (hloops : b.id ∉ loops)
    (hforks : g.Forks b.id inner after)
    (hbody : ∀ s, Trail (Machine.execute env' g) g b.id (b.id :: loops) cost inner (b.id :: loops) s (body s))
    (rounds : Nat) (again : Bool) (s : Store) :
    Trail (Machine.execute env' g) g after loops (rounds * (cost + 1) + 1) b.id (around b.id loops again) s
      ((do
        Store.runClause env (if again then i.increment else i.init)
        Action.repeatWhile (evaluateCondition env i.condition)
          (do
            body
            Store.runClause env i.increment)
          rounds : Action Store Unit) s) := by
  have hfinish : b.kind ≠ .finish := by
    rcases hkind with hkind | hkind <;> rw [hkind] <;> exact BlockKind.noConfusion
  have hlands : ∀ again s, Lands (fun outcome => if outcome then inner else after) (around b.id loops)
      (headAction env i again s) (Machine.execute env' g b (s.machine (around b.id loops again))) :=
    fun again s => lands_head again (henv _) hloops hi hkind hforks
  induction rounds generalizing again s with
  | zero =>
    -- No round is left, but the clause before the test may fail.
    have hland := hlands again s
    unfold headAction at hland
    rw [Action.bind_apply] at hland ⊢
    cases hclause : Store.runClause env (if again then i.increment else i.init) s with
    | done u t => exact .unfinished
    | failed f t =>
      rw [hclause] at hland
      obtain ⟨hf, inside', hstep⟩ := hland
      exact .failed hb hfinish hstep hf
    | unfinished => exact .unfinished
  | succ rounds ih =>
    have hround : ((do
        Store.runClause env (if again then i.increment else i.init)
        Action.repeatWhile (evaluateCondition env i.condition)
          (do
            body
            Store.runClause env i.increment)
          (rounds + 1) : Action Store Unit) s) =
        (headAction env i again s).andThen fun outcome =>
          if outcome then do
            body
            Store.runClause env (if true then i.increment else i.init)
            Action.repeatWhile (evaluateCondition env i.condition)
              (do
                body
                Store.runClause env i.increment)
              rounds
          else pure () := by
      unfold headAction
      rw [Action.repeatWhile, ← Action.bind_apply]
      simp only [bind_assoc, if_true]
    rw [hround, Nat.succ_mul, show rounds * (cost + 1) + (cost + 1) + 1 = cost + (rounds * (cost + 1) + 1) + 1 by omega]
    refine Trail.hop hb hfinish (hlands again s) ?_
    intro outcome t
    cases outcome with
    | true => exact (hbody t).andThen fun t' => ih true t'
    | false => exact .arrived

/-- **A loop that tests after its body is a trail** from its test to the block behind it. -/
theorem doLoop_trail {entry test : Node} {loops : List BlockId} {inner after : BlockId} {cost : Nat}
    {body : Action Store Unit} (henv : ∀ inside, env.Sim (Same inside) env')
    (hentry : g.block? entry.id = some (entry.block .merge))
    (htest : g.block? test.id = some (test.block .doWhile)) (hleads : g.Leads entry.id inner)
    (hforks : g.Forks test.id entry.id after)
    (hbody : ∀ s, Trail (Machine.execute env' g) g test.id loops cost inner loops s (body s))
    (rounds : Nat) (s : Store) :
    Trail (Machine.execute env' g) g after loops (rounds * (cost + 2) + 1) test.id loops s
      (Action.repeatWhile (Script.test env (test.block .doWhile)) body rounds s) := by
  induction rounds generalizing s with
  | zero => exact .unfinished
  | succ rounds ih =>
    rw [Nat.succ_mul, show rounds * (cost + 2) + (cost + 2) + 1 = cost + (rounds * (cost + 2) + 1) + 1 + 1 by omega]
    refine Trail.hop (b := test.block .doWhile) htest BlockKind.noConfusion
      (lands_test (henv loops) (.inr rfl) hforks) ?_
    intro outcome t
    cases outcome with
    | true =>
      have hpass : Machine.execute env' g (entry.block .merge) (t.machine loops) = _ :=
        execute_merge (.inl rfl) hleads _
      exact .next (b := entry.block .merge) hentry BlockKind.noConfusion hpass ((hbody t).andThen ih)
    | false => exact .arrived

/-- **A script that is laid out is a trail**, by induction on the script.  None of its own loops is on the list
when the script is entered; the list grows by the heads of the loops that are entered, and where the script is
left, it is what it was. -/
theorem trail {exit : BlockId} {s : Script} (hlaid : s.Laid g exit) (hnodup : s.ids.Nodup)
    (hquiet : s.AsksNothing) (henv : ∀ inside, env.Sim (Same inside) env') (rounds : Nat)
    {loops : List BlockId} (hloops : ∀ b ∈ s.blocks, b.id ∉ loops) (store : Store) :
    Trail (Machine.execute env' g) g exit loops (s.cost rounds) (s.entry exit) loops store
      (s.run env rounds store) := by
  induction hlaid generalizing loops store with
  | done => exact .arrived
  | @simple exit kind node next hnode hleads _ ih =>
    rw [ids_simple, List.nodup_cons] at hnodup
    obtain ⟨hstatement, hquietNext⟩ := forall_blocks_simple.mp hquiet
    obtain ⟨-, hloopsNext⟩ := forall_blocks_simple.mp hloops
    have hrest := ih hnodup.2 hquietNext hloopsNext
    have hkind : (node.block kind.kind).kind ≠ .finish := by
      cases kind <;> exact BlockKind.noConfusion
    have hrun : (simple kind node next).run env rounds store =
        ((Action.ofExcept (node.block kind.kind).instruction >>= Store.carryOut env) store).andThen
          fun _ => next.run env rounds := by
      rw [run, ← Action.bind_apply, bind_assoc]
    rw [hrun, cost, Nat.add_comm]
    exact Trail.hop (b := node.block kind.kind) hnode hkind (lands_simple (henv loops) rfl hstatement hleads)
      fun _ t => hrest t
  | @choice exit test join yes no next htest hjoin hforks hleads _ _ _ ihy ihn ih =>
    have hs := distinctChoice_of_nodup hnodup
    obtain ⟨-, hquietYes, hquietNo, hquietNext⟩ := forall_blocks_choice.mp hquiet
    obtain ⟨-, hloopsYes, hloopsNo, hloopsNext⟩ := forall_blocks_choice.mp hloops
    have hrun : (choice test join yes no next).run env rounds store =
        (Script.test env (test.block .conditional) store).andThen fun outcome =>
          (if outcome then yes.run env rounds else no.run env rounds : Action Store Unit) >>= fun _ =>
            next.run env rounds := by
      rw [run, ← Action.bind_apply]
    rw [hrun, cost]
    exact choice_trail henv htest hjoin hforks hleads (ihy hs.nodup_yes hquietYes hloopsYes)
      (ihn hs.nodup_no hquietNo hloopsNo) (ih hs.nodup_next hquietNext hloopsNext) store
  | @loop exit kind head body next hhead hforks _ _ ihb ih =>
    have hs := distinctLoop_of_nodup hnodup
    obtain ⟨-, hquietBody, hquietNext⟩ := forall_blocks_loop.mp hquiet
    obtain ⟨hloopsHead, hloopsBody, hloopsNext⟩ := forall_blocks_loop.mp hloops
    have hkind : (head.block kind.kind).kind = .loop ∨ (head.block kind.kind).kind = .forLoop := by
      cases kind
      · exact .inl rfl
      · exact .inr rfl
    have hrest := ih hs.nodup_next hquietNext hloopsNext
    -- Inside the body, the loop itself is on the list.
    have hinner : ∀ b ∈ body.blocks, b.id ∉ head.id :: loops := by
      intro b hb hmem
      rcases List.mem_cons.mp hmem with hid | hmem
      · exact hs.head_body (hid ▸ List.mem_map_of_mem hb)
      · exact hloopsBody b hb hmem
    have hbody := ihb hs.nodup_body hquietBody hinner
    cases hi : (head.block kind.kind).instruction with
    | error f =>
      have hfails : (loop kind head body next).run env rounds store = .failed f store := by
        rw [run, hi]
        rfl
      have hfinish : (head.block kind.kind).kind ≠ .finish := by
        cases kind <;> exact BlockKind.noConfusion
      rw [hfails, cost, show rounds * (body.cost rounds + 1) + 1 + next.cost rounds =
        rounds * (body.cost rounds + 1) + next.cost rounds + 1 by omega]
      exact .failed (b := head.block kind.kind) hhead hfinish (execute_of_error hi _) (Block.instruction_error hi)
    | ok i =>
      have hrounds := loop_trail (b := head.block kind.kind) henv hhead hkind hi hloopsHead hforks hbody rounds
        false store
      have hrun : (loop kind head body next).run env rounds store =
          ((do
            Store.runClause env i.init
            Action.repeatWhile (evaluateCondition env i.condition)
              (do
                body.run env rounds
                Store.runClause env i.increment)
              rounds : Action Store Unit) store).andThen fun _ => next.run env rounds := by
        rw [run, hi, ← Action.bind_apply, bind_assoc]
        rfl
      rw [hrun, cost]
      exact hrounds.andThen hrest
  | @doLoop exit entry test body next hentry htest hleads hforks _ _ ihb ih =>
    have hs := distinctDoLoop_of_nodup hnodup
    obtain ⟨-, hquietBody, hquietNext⟩ := forall_blocks_doLoop.mp hquiet
    obtain ⟨-, hloopsBody, hloopsNext⟩ := forall_blocks_doLoop.mp hloops
    have hbody := ihb hs.nodup_body hquietBody hloopsBody
    have hrest := ih hs.nodup_next hquietNext hloopsNext
    have hrounds := doLoop_trail henv hentry htest hleads hforks hbody rounds
    have hpass : Machine.execute env' g (entry.block .merge) (store.machine loops) = _ :=
      execute_merge (.inl rfl) hleads _
    have hrun : (doLoop entry test body next).run env rounds store =
        (((body.run env rounds) store).andThen fun _ =>
          Action.repeatWhile (Script.test env (test.block .doWhile)) (body.run env rounds) rounds).andThen
            fun _ => next.run env rounds := by
      rw [run, ← Action.bind_apply, ← Action.bind_apply, bind_assoc]
    rw [hrun, cost, show 1 + body.cost rounds + (rounds * (body.cost rounds + 2) + 1) + next.cost rounds =
      body.cost rounds + (rounds * (body.cost rounds + 2) + 1) + next.cost rounds + 1 by omega]
    exact .next (b := entry.block .merge) hentry BlockKind.noConfusion hpass
      (((hbody store).andThen hrounds).andThen hrest)

end Trails

end Script

/-- **A chart that shows an outline is a trail** from its start block to its end block, on which the list of
loops is empty at both ends. -/
theorem Outline.trail {g : Graph} {o : Outline} {env : Environment Store} {env' : Environment Machine}
    (h : g.Shows o) (hquiet : o.script.AsksNothing) (henv : ∀ inside, env.Sim (Same inside) env') (rounds : Nat)
    (store : Store) :
    Trail (Machine.execute env' g) g o.finish.id [] (o.script.cost rounds + 1) o.start.id [] store
      (o.script.run env rounds store) := by
  have hpass : Machine.execute env' g (o.start.block .start) (store.machine []) = _ :=
    execute_merge (.inr rfl) h.start_leads _
  have hscript := Script.trail h.laid o.script_nodup hquiet henv rounds (fun _ _ => List.not_mem_nil) store
  exact .next (b := o.start.block .start) (h.found List.mem_cons_self) BlockKind.noConfusion hpass hscript

end Flowchart
