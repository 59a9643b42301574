import Flowchart.Proofs.Cancellation
import Flowchart.Proofs.Session.Moments

/-!
# Programs that pass the checks do not get stuck

Charts may have loose ends: edges to nowhere, tests without a branch, paths that just stop.  Execution copes with
all of them, in one way or another.  Here it is shown that on a program that passes the checks it never has to.

* `Graph.Sound` — what the checks of a chart establish (`Graph.sound_of_validate`), and `Program.sound_of_validate`
  for all the charts of a program.
* `Graph.Located` — control is at a block of the chart.  `Graph.Sound.leads` is the step: a block that is not an end
  block leads to a block.
* `Machine.test` — what a block with two branches does before it is left; `Graph.Sound.execute_branching` says along
  which edge it is left.
* `Machine.Walk` — the way through a body.  `Walk.located` carries the step over a whole walk.
* **`Machine.call_walks`** — a call that gives a value went through its body to an end block.
* **`Machine.call_finds`** — no call looks for a block in vain, by induction on the calls that may be nested.
-/

namespace Flowchart

variable {σ α β : Type}

/-! ### What the checks establish -/

/-- What is true of a chart that passes the checks. -/
structure Graph.Sound (g : Graph) : Prop where
  start : ∃ id, g.start? = some id
  finish : ∀ b ∈ g.blocks, b.kind = .finish → g.finish? = some b.id
  target : ∀ e ∈ g.edges, ∃ b, g.block? e.target = some b
  branch : ∀ b ∈ g.blocks, b.kind.isBranching = true → ∀ branch, ∃ e, g.taggedEdge? b.id branch = some e
  successor : ∀ b ∈ g.blocks, b.kind ≠ .finish → ∃ id, g.successor? b.id = some id

/-- A check passes together with what follows if both pass. -/
theorem ok_of_bind_ok {check rest : Except Defect Unit} (h : (check >>= fun _ => rest) = .ok ()) :
    check = .ok () ∧ rest = .ok () := by
  cases check with
  | error d => cases h
  | ok u => exact ⟨rfl, h⟩

namespace Graph

variable {g : Graph}

/-- The first block of a kind is the first one of all blocks of that kind. -/
theorem firstOf?_of_filter {kind : BlockKind} {b : Block} {rest : List Block}
    (h : g.blocks.filter (·.kind == kind) = b :: rest) : g.firstOf? kind = some b.id := by
  unfold firstOf?
  rw [← List.head?_filter, h]
  rfl

/-- There is a block of the kind and with the number. -/
theorem exists_of_firstOf? {kind : BlockKind} {id : BlockId} (h : g.firstOf? kind = some id) :
    ∃ b ∈ g.blocks, b.kind = kind ∧ b.id = id := by
  obtain ⟨b, hb, hid⟩ := Option.map_eq_some_iff.mp h
  exact ⟨b, List.mem_of_find?_eq_some hb, by simpa using List.find?_some hb, hid⟩

theorem start_of_check (h : g.checkStartAndFinish = .ok ()) : ∃ id, g.start? = some id := by
  unfold checkStartAndFinish at h
  split at h
  · cases h
  · cases h
  · next b hstart => exact ⟨b.id, firstOf?_of_filter hstart⟩

/-- There is only one end block, so every end block is the first one. -/
theorem finish_of_check (h : g.checkStartAndFinish = .ok ()) {b : Block} (hb : b ∈ g.blocks)
    (hkind : b.kind = .finish) : g.finish? = some b.id := by
  unfold checkStartAndFinish at h
  split at h
  · cases h
  · cases h
  · split at h
    · cases h
    · cases h
    · next e hfinish =>
      have hmem : b ∈ g.blocks.filter (·.kind == .finish) := List.mem_filter.mpr ⟨hb, beq_iff_eq.mpr hkind⟩
      rw [hfinish, List.mem_singleton] at hmem
      rw [hmem]
      exact firstOf?_of_filter hfinish

theorem target_of_check (h : g.checkEndpoints = .ok ()) {e : Edge} (he : e ∈ g.edges) :
    ∃ b, g.block? e.target = some b := by
  have hnone := firstDefect_eq_ok_iff.mp h e he
  by_cases hsource : (g.block? e.source).isNone = true
  · rw [if_pos hsource] at hnone
    cases hnone
  · rw [if_neg hsource] at hnone
    by_cases htarget : (g.block? e.target).isNone = true
    · rw [if_pos htarget] at hnone
      cases hnone
    · exact Option.ne_none_iff_exists'.mp (by simpa using htarget)

theorem branch_of_check (h : g.checkBranches = .ok ()) {b : Block} (hb : b ∈ g.blocks)
    (hkind : b.kind.isBranching = true) (branch : Branch) : ∃ e, g.taggedEdge? b.id branch = some e := by
  have hnone := firstDefect_eq_ok_iff.mp h b (List.mem_filter.mpr ⟨hb, hkind⟩)
  by_cases hyes : (g.taggedEdge? b.id .whenTrue).isNone = true
  · rw [if_pos hyes] at hnone
    cases hnone
  · rw [if_neg hyes] at hnone
    by_cases hno : (g.taggedEdge? b.id .whenFalse).isNone = true
    · rw [if_pos hno] at hnone
      cases hnone
    · cases branch with
      | whenTrue => exact Option.ne_none_iff_exists'.mp (by simpa using hyes)
      | whenFalse => exact Option.ne_none_iff_exists'.mp (by simpa using hno)

theorem successor_of_check (h : g.checkDeadEnds = .ok ()) {b : Block} (hb : b ∈ g.blocks)
    (hkind : b.kind ≠ .finish) : ∃ id, g.successor? b.id = some id := by
  have hnone := firstDefect_eq_ok_iff.mp h b (List.mem_filter.mpr ⟨hb, bne_iff_ne.mpr hkind⟩)
  by_cases hempty : (g.outgoing b.id).isEmpty = true
  · rw [if_pos hempty] at hnone
    cases hnone
  · unfold successor?
    cases hout : g.outgoing b.id with
    | nil => exact absurd (by rw [hout]; rfl) hempty
    | cons e rest => exact ⟨e.target, rfl⟩

/-- **A chart that passes the checks is sound.** -/
theorem sound_of_validate (h : g.validate = .ok ()) : g.Sound := by
  obtain ⟨hendpoints, h⟩ := ok_of_bind_ok h
  obtain ⟨hends, h⟩ := ok_of_bind_ok h
  obtain ⟨hbranches, h⟩ := ok_of_bind_ok h
  obtain ⟨hdead, -⟩ := ok_of_bind_ok h
  exact {
    start := start_of_check hends
    finish := fun b hb hkind => finish_of_check hends hb hkind
    target := fun e he => target_of_check hendpoints he
    branch := fun b hb hkind branch => branch_of_check hbranches hb hkind branch
    successor := fun b hb hkind => successor_of_check hdead hb hkind }

end Graph

/-- The charts of a program: the main one, and the bodies of the functions. -/
def Program.charts (p : Program) : List Graph := p.main :: p.functions.toList.map Function.body

/-- A check along a list of functions passes only if it passes for each of them. -/
theorem ok_of_forM_ok {fs : List Function} (h : fs.forM Function.validate = .ok ()) {f : Function} (hf : f ∈ fs) :
    f.validate = .ok () := by
  induction fs with
  | nil => cases hf
  | cons first fs ih =>
    obtain ⟨hfirst, hrest⟩ := ok_of_bind_ok h
    rcases List.mem_cons.mp hf with rfl | hf
    · exact hfirst
    · exact ih hrest hf

/-- **Every chart of a program that passes the checks is sound.** -/
theorem Program.sound_of_validate {p : Program} (h : p.validate = .ok ()) {g : Graph} (hg : g ∈ p.charts) :
    g.Sound := by
  obtain ⟨hmain, hfunctions⟩ := ok_of_bind_ok h
  rcases List.mem_cons.mp hg with rfl | hg
  · exact Graph.sound_of_validate hmain
  · obtain ⟨f, hf, rfl⟩ := List.mem_map.mp hg
    have hbody := ok_of_forM_ok hfunctions hf
    unfold Function.validate at hbody
    split at hbody
    · next hok => exact Graph.sound_of_validate hok
    · cases hbody

/-! ### Where control goes -/

/-- Control is at a block of the chart. -/
def Graph.Located (g : Graph) (id : Option BlockId) : Prop := ∃ b, id.bind g.block? = some b

namespace Machine

/-- An instruction with one way to go on goes along the first edge. -/
theorem perform_successor {env : Environment Machine} {g : Graph} {id : BlockId} {i : Instruction}
    (hbranching : i.kind.isBranching = false) (hfinish : i.kind ≠ .finish) {target : Option BlockId} {m n : Machine}
    (h : perform env g id i m = .done (.next target) n) : target = g.successor? id := by
  cases i with
  | start =>
    cases h
    rfl
  | finish => exact absurd rfl hfinish
  | merge =>
    cases h
    rfl
  | assign name expression =>
    obtain ⟨v, m₁, -, h⟩ := Action.exists_of_bind_done h
    obtain ⟨u, m₂, -, h⟩ := Action.exists_of_bind_done h
    cases h
    rfl
  | input names => cases h
  | output expression =>
    obtain ⟨v, m₁, -, h⟩ := Action.exists_of_bind_done h
    obtain ⟨u, m₂, -, h⟩ := Action.exists_of_bind_done h
    cases h
    rfl
  | call name function arguments =>
    obtain ⟨values, m₁, -, h⟩ := Action.exists_of_bind_done h
    obtain ⟨v, m₂, -, h⟩ := Action.exists_of_bind_done h
    obtain ⟨u, m₃, -, h⟩ := Action.exists_of_bind_done h
    cases h
    rfl
  | _ => cases hbranching

/-- What an instruction with two branches does before control leaves it: the clauses of a counting loop are run, the
condition is evaluated, and loops note its outcome. -/
def test (env : Environment Machine) (id : BlockId) : Instruction → Action Machine Bool
  | .choose condition | .doWhile condition => evaluateCondition env condition
  | .whileLoop condition => do
    let outcome ← evaluateCondition env condition
    noteLoop id outcome
    pure outcome
  | .forLoop init condition increment => do
    let again ← inLoop id
    runClause env (if again then increment else init)
    let outcome ← evaluateCondition env condition
    noteLoop id outcome
    pure outcome
  | _ => pure false

/-- The same for a block. -/
def testBlock (env : Environment Machine) (b : Block) : Action Machine Bool := do
  let instruction ← Action.ofExcept b.instruction
  test env b.id instruction

theorem perform_test (env : Environment Machine) (g : Graph) (id : BlockId) {i : Instruction}
    (h : i.kind.isBranching = true) :
    perform env g id i = test env id i >>= fun outcome => pure (.next (g.afterCondition id outcome)) := by
  cases i with
  | choose condition => rfl
  | doWhile condition => rfl
  | whileLoop condition =>
    unfold test
    simp only [bind_assoc, pure_bind]
    rfl
  | forLoop init condition increment =>
    unfold test
    simp only [bind_assoc, pure_bind]
    rfl
  | _ => cases h

/-- A block with two branches is left along the way of its outcome. -/
theorem execute_test (env : Environment Machine) (g : Graph) {b : Block} (h : b.kind.isBranching = true) :
    execute env g b = testBlock env b >>= fun outcome => pure (.next (g.afterCondition b.id outcome)) := by
  unfold execute testBlock
  rw [bind_assoc]
  cases hlabel : b.instruction with
  | error f => rfl
  | ok i =>
    rw [← Block.kind_of_instruction hlabel] at h
    exact perform_test env g b.id h

end Machine

namespace Graph.Sound

variable {g : Graph} {b : Block}

/-- A tagged edge decides, whatever labels the edges have. -/
theorem afterCondition_eq {e : Edge} (outcome : Bool) (h : g.taggedEdge? b.id (Branch.ofBool outcome) = some e) :
    g.afterCondition b.id outcome = some e.target := by
  unfold Graph.afterCondition Graph.branchTarget? Graph.branchEdge?
  rw [h]
  rfl

/-- **A block with two branches goes where the first edge that is tagged with its outcome leads.** -/
theorem execute_branching (hg : g.Sound) (hb : b ∈ g.blocks) (hkind : b.kind.isBranching = true) :
    ∃ yes no, g.taggedEdge? b.id .whenTrue = some yes ∧ g.taggedEdge? b.id .whenFalse = some no ∧
      ∀ env, Machine.execute env g b = Machine.testBlock env b >>= fun outcome =>
        pure (.next (some (if outcome then yes else no).target)) := by
  obtain ⟨yes, hyes⟩ := hg.branch b hb hkind .whenTrue
  obtain ⟨no, hno⟩ := hg.branch b hb hkind .whenFalse
  refine ⟨yes, no, hyes, hno, fun env => ?_⟩
  rw [Machine.execute_test env g hkind]
  congr 1
  funext outcome
  cases outcome with
  | true =>
    rw [afterCondition_eq true hyes]
    rfl
  | false =>
    rw [afterCondition_eq false hno]
    rfl

/-- Where an edge leads there is a block. -/
theorem located (hg : g.Sound) {e : Edge} {id : BlockId} (he : e ∈ g.outgoing id) : g.Located (some e.target) :=
  hg.target e (List.mem_of_mem_filter he)

theorem located_of_tagged (hg : g.Sound) {id : BlockId} {branch : Branch} {e : Edge}
    (h : g.taggedEdge? id branch = some e) : g.Located (some e.target) :=
  hg.located (List.mem_of_find?_eq_some h)

/-- The first edge of a block leads to a block. -/
theorem located_of_successor (hg : g.Sound) (hb : b ∈ g.blocks) (hkind : b.kind ≠ .finish) :
    g.Located (g.successor? b.id) := by
  obtain ⟨next, hnext⟩ := hg.successor b hb hkind
  obtain ⟨e, he, htarget⟩ := Option.map_eq_some_iff.mp hnext
  rw [hnext, ← htarget]
  exact hg.located (List.mem_of_head? he)

/-- **The step**: a block that is not an end block leads to a block. -/
theorem leads (hg : g.Sound) (hb : b ∈ g.blocks) (hkind : b.kind ≠ .finish) {env : Environment Machine}
    {target : Option BlockId} {m n : Machine} (h : Machine.execute env g b m = .done (.next target) n) :
    g.Located target := by
  cases hbranching : b.kind.isBranching with
  | true =>
    obtain ⟨yes, no, hyes, hno, hexecute⟩ := hg.execute_branching hb hbranching
    rw [hexecute env] at h
    obtain ⟨outcome, m₁, -, h⟩ := Action.exists_of_bind_done h
    cases h
    cases outcome with
    | true => exact hg.located_of_tagged hyes
    | false => exact hg.located_of_tagged hno
  | false =>
    obtain ⟨i, hlabel, hperform⟩ := Machine.exists_of_execute_done h
    rw [← Block.kind_of_instruction hlabel] at hbranching hkind
    rw [Machine.perform_successor hbranching hkind hperform]
    rw [Block.kind_of_instruction hlabel] at hkind
    exact hg.located_of_successor hb hkind

end Graph.Sound

/-- A chart begins at a block. -/
theorem Graph.located_start {g : Graph} {id : BlockId} (h : g.start? = some id) : g.Located (some id) := by
  obtain ⟨b, hb, -, rfl⟩ := exists_of_firstOf? h
  exact exists_block? hb

/-! ### The way through a body -/

namespace Machine

/-- A way through a body, from one number to another: blocks that are no end and were not cancelled, each of which
came to its end and led to the next one. -/
inductive Walk (step : Block → Action Machine Flow) (g : Graph) (finish : BlockId) :
    Option BlockId → Machine → Option BlockId → Machine → Prop where
  | here {id : Option BlockId} {m : Machine} : Walk step g finish id m id m
  | block {id : BlockId} {b : Block} {target last : Option BlockId} {m n k : Machine} (hid : id ≠ finish)
      (hpoll : m.poll.stopRequested = false) (hb : g.block? id = some b)
      (hstep : step b m.poll = .done (.next target) n) (h : Walk step g finish target n last k) :
      Walk step g finish (some id) m last k

/-- How a body comes to its end where a walk has led: at the end block, or where a path just stops, or with a
fault. -/
inductive Stops (step : Block → Action Machine Flow) (name : String) (g : Graph) (finish : BlockId) :
    Option BlockId → Machine → Outcome Machine Unit → Prop where
  | finishes {m : Machine} : Stops step name g finish (some finish) m (.done () m)
  | trails {m : Machine} : Stops step name g finish none m (.done () m)
  | cancelled {id : BlockId} {m : Machine} : Stops step name g finish (some id) m (.failed .cancelled m.poll)
  | misses {id : BlockId} {m : Machine} (hb : g.block? id = none) :
      Stops step name g finish (some id) m (.failed (.blockNotFound id) m.poll)
  | asks {id : BlockId} {b : Block} {names : List String} {m n : Machine} (hb : g.block? id = some b)
      (hstep : step b m.poll = .done (.awaitInput names) n) :
      Stops step name g finish (some id) m (.failed (.inputInsideCall name (names.headD "")) n)
  | fails {id : BlockId} {b : Block} {f : Fault} {m n : Machine} (hb : g.block? id = some b)
      (hstep : step b m.poll = .failed f n) : Stops step name g finish (some id) m (.failed f n)
  | runsOut {id : Option BlockId} {m : Machine} : Stops step name g finish id m .unfinished

variable {step : Block → Action Machine Flow} {name : String} {g : Graph} {finish : BlockId}

/-- **A body is a walk that stops**, by induction on the allowance. -/
theorem runBody_stops (step : Block → Action Machine Flow) (name : String) (allowance : Nat) (id : Option BlockId)
    (m : Machine) :
    ∃ last n, Walk step g finish id m last n ∧
      Stops step name g finish last n (runBody step name g finish allowance id m) := by
  induction allowance generalizing id m with
  | zero => exact ⟨id, m, .here, .runsOut⟩
  | succ allowance ih =>
    cases id with
    | none => exact ⟨none, m, .here, .trails⟩
    | some id =>
      simp only [runBody]
      by_cases hid : id = finish
      · rw [if_pos hid, hid]
        exact ⟨some finish, m, .here, .finishes⟩
      rw [if_neg hid]
      by_cases hpoll : m.poll.stopRequested = true
      · rw [if_pos hpoll]
        exact ⟨some id, m, .here, .cancelled⟩
      rw [if_neg hpoll]
      cases hb : g.block? id with
      | none => exact ⟨some id, m, .here, .misses hb⟩
      | some b =>
        dsimp only
        cases hstep : step b m.poll with
        | done flow n =>
          cases flow with
          | next target =>
            obtain ⟨last, k, hwalk, hstops⟩ := ih target n
            exact ⟨last, k, .block hid (Bool.eq_false_iff.mpr hpoll) hb hstep hwalk, hstops⟩
          | awaitInput names => exact ⟨some id, m, .here, .asks hb hstep⟩
        | failed f n => exact ⟨some id, m, .here, .fails hb hstep⟩
        | unfinished => exact ⟨some id, m, .here, .runsOut⟩

/-- **A walk in a sound chart never leaves it**, by induction on the walk. -/
theorem Walk.located {env : Environment Machine} {id last : Option BlockId} {m n : Machine} (hg : g.Sound)
    (hfinish : g.finish? = some finish) (h : Walk (execute env g) g finish id m last n) (hid : g.Located id) :
    g.Located last := by
  induction h with
  | here => exact hid
  | @block id b target last m n k hne hpoll hb hstep _ ih =>
    obtain ⟨hmem, hnumber⟩ := Graph.mem_of_block? hb
    have hkind : b.kind ≠ .finish := by
      intro hkind
      have hends := (hg.finish b hmem hkind).symm.trans hfinish
      rw [hnumber] at hends
      exact hne (Option.some.inj hends)
    exact ih (hg.leads hmem hkind hstep)

/-- **A body of a sound chart that came to its end was walked to its end block.** -/
theorem walk_of_done {env : Environment Machine} {allowance : Nat} {id : Option BlockId} {m n : Machine}
    (hg : g.Sound) (hfinish : g.finish? = some finish) (hid : g.Located id)
    (h : runBody (execute env g) name g finish allowance id m = .done () n) :
    Walk (execute env g) g finish id m (some finish) n := by
  obtain ⟨last, k, hwalk, hstops⟩ := runBody_stops (execute env g) name allowance id m
  rw [h] at hstops
  cases hstops with
  | finishes => exact hwalk
  | trails =>
    obtain ⟨b, hb⟩ := hwalk.located hg hfinish hid
    cases hb

end Machine

/-! ### Calls -/

/-- No block was looked for in vain. -/
def Outcome.Finds (o : Outcome σ α) : Prop := ∀ id s, o ≠ .failed (.blockNotFound id) s

namespace Machine

/-- Equal machines, and no block was looked for in vain. -/
def Found (f : Option Fault) (m n : Machine) : Prop := m = n ∧ ∀ id, f ≠ some (.blockNotFound id)

theorem finds_of_sim {o : Outcome Machine α} (h : o.Sim Found o) : o.Finds := by
  intro id m ho
  rw [ho] at h
  cases h with
  | failed hf => exact hf.2 id rfl

theorem sim_of_finds {o : Outcome Machine α} (h : o.Finds) : o.Sim Found o := by
  cases o with
  | done a m => exact .done ⟨rfl, fun _ => (Option.some_ne_none _).symm⟩
  | failed f m => exact .failed ⟨rfl, fun id hf => h id m (by rw [Option.some.inj hf])⟩
  | unfinished => exact .unfinished

theorem steady_found : Steady Found where
  bind := by
    intro m n h name v
    obtain ⟨rfl, h⟩ := h
    exact ⟨rfl, h⟩
  print := by
    intro m n h v
    obtain ⟨rfl, h⟩ := h
    exact ⟨rfl, h⟩
  loops := by
    intro m n h
    rw [h.1]
  track := by
    intro m n h id outcome
    obtain ⟨rfl, h⟩ := h
    exact ⟨rfl, h⟩

/-- Any other fault may be raised. -/
theorem Found.fault {m n : Machine} {f : Option Fault} (h : Found f m n) {f' : Fault}
    (hf : ∀ id, f' ≠ .blockNotFound id) : Found (some f') m n :=
  ⟨h.1, fun id heq => hf id (Option.some.inj heq)⟩

/-- Blocks whose calls look for no block in vain do not either. -/
theorem execute_finds {calls : String → List Value → Action Machine Value}
    (h : ∀ name arguments m, (calls name arguments m).Finds) (g : Graph) (b : Block) (m : Machine) :
    (execute (environment calls) g b m).Finds := by
  have henv : (environment calls).Sim Found (environment calls) := {
    lookup := by
      intro s t hst name
      rw [hst.1]
    undefined := fun _ _ hst _ => hst.fault fun _ => Fault.noConfusion
    call := by
      intro name arguments s t hst
      rw [← hst.1]
      exact sim_of_finds (h name arguments s) }
  refine finds_of_sim (execute_sim_of_steady steady_found henv g b ?_ m m ⟨rfl, fun _ => (Option.some_ne_none _).symm⟩)
  intro f hf s t hst
  obtain ⟨reason, rfl⟩ := Block.instruction_error_eq hf
  exact hst.fault fun _ => Fault.noConfusion

/-- A body of a sound chart looks for no block in vain, if its blocks do not. -/
theorem runBody_finds {env : Environment Machine} {allowance : Nat} {id : Option BlockId} {m : Machine}
    (hg : g.Sound) (hfinish : g.finish? = some finish) (hid : g.Located id)
    (h : ∀ b m, (execute env g b m).Finds) :
    (runBody (execute env g) name g finish allowance id m).Finds := by
  intro missing n heq
  obtain ⟨last, k, hwalk, hstops⟩ := runBody_stops (execute env g) name allowance id m
  rw [heq] at hstops
  cases hstops with
  | misses hb =>
    obtain ⟨b, hfound⟩ := hwalk.located hg hfinish hid
    change g.block? missing = some b at hfound
    rw [hb] at hfound
    cases hfound
  | fails hb hstep => exact h _ _ missing n hstep

variable {p : Program}

/-- A function that is found by its name has a body that was checked. -/
theorem sound_of_admission (hp : p.validate = .ok ()) {limit room : Nat} {name : String} {arguments : List Value}
    {a : Admission} (h : admission p limit room name arguments = .ok a) : a.function.body.Sound := by
  obtain ⟨place, -, hplace⟩ := Option.bind_eq_some_iff.mp (of_admission h).1
  exact p.sound_of_validate hp (List.mem_cons_of_mem _ (List.mem_map_of_mem (List.mem_of_getElem? hplace)))

/-- The check at the beginning of a call looks for no block. -/
theorem admission_ne_blockNotFound {limit room : Nat} {name : String} {arguments : List Value} {f : Fault}
    (h : admission p limit room name arguments = .error f) (id : BlockId) : f ≠ .blockNotFound id := by
  rcases fault_of_admission h with rfl | ⟨expected, rfl⟩ | rfl | rfl <;> exact Fault.noConfusion

theorem returnFrom_finds (f : Function) (loops : List BlockId) {o : Outcome Machine Unit} (h : o.Finds) :
    (returnFrom f loops o).Finds := by
  intro id m ho
  cases o with
  | done u n => cases ho
  | failed fault n =>
    cases ho
    exact h id n rfl
  | unfinished => cases ho

/-- **No call looks for a block in vain**, by induction on the room for nested calls. -/
theorem call_finds (hp : p.validate = .ok ()) (limit allowance room : Nat) (name : String) (arguments : List Value)
    (m : Machine) : (call p limit allowance room name arguments m).Finds := by
  induction room using Nat.strongRecOn generalizing name arguments m with
  | ind room ih =>
    rw [call_eq]
    cases ha : admission p limit room name arguments with
    | error f =>
      intro id n heq
      cases heq
      exact admission_ne_blockNotFound ha id rfl
    | ok a =>
      obtain ⟨-, hstart, hfinish, -⟩ := of_admission ha
      have hblocks := fun b n => execute_finds (ih a.room (room_lt_of_admission ha)) a.function.body b n
      exact returnFrom_finds a.function m.loops <|
        runBody_finds (sound_of_admission hp ha) hfinish (Graph.located_start hstart) hblocks

/-- **A call that gives a value went through its body to an end block.** -/
theorem call_walks (hp : p.validate = .ok ()) {limit allowance room : Nat} {name : String} {arguments : List Value}
    {v : Value} {m n : Machine} (h : call p limit allowance room name arguments m = .done v n) :
    ∃ a k, admission p limit room name arguments = .ok a ∧
      Walk (execute (environment (call p limit allowance a.room)) a.function.body) a.function.body a.finish
        (some a.start) (m.enter (a.function.frame name arguments)) (some a.finish) k ∧
      (∃ b ∈ a.function.body.blocks, b.kind = .finish ∧ b.id = a.finish) ∧
      v = a.function.result k.scope.top? ∧ n = k.leave m.loops := by
  rw [call_eq] at h
  cases ha : admission p limit room name arguments with
  | error f =>
    rw [ha] at h
    cases h
  | ok a =>
    rw [ha] at h
    dsimp only at h
    obtain ⟨-, hstart, hfinish, -⟩ := of_admission ha
    cases hbody : bodyOutcome p limit allowance name arguments a m with
    | done u k =>
      rw [hbody] at h
      cases h
      refine ⟨a, k, rfl, ?_, Graph.exists_of_firstOf? hfinish, rfl, rfl⟩
      exact walk_of_done (sound_of_admission hp ha) hfinish (Graph.located_start hstart) hbody
    | failed f k =>
      rw [hbody] at h
      cases h
    | unfinished =>
      rw [hbody] at h
      cases h

end Machine

end Flowchart
