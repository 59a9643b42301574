import Flowchart.Proofs.Code.Declarations
import Flowchart.Proofs.Routine.Tracking
import Flowchart.Proofs.Session.Coherence
import Flowchart.Proofs.Session.Loops

/-!
# Counting loops start afresh

A counting loop runs its first clause when control comes from outside, and its last clause when control comes back from
the body.  The machine tells the one from the other by the list of the loops that are being executed.  A way out does
not take the loop that is left from the list; that is done when the test of a loop around it is carried out, if that
loop tests before its body.  A loop that tests after its body is not tracked and takes nothing from the list.

* `Machine.round` — what a counting loop does with one of its clauses.
* `Machine.perform_tracks`, `Machine.perform_keeps_loops` — what blocks do to the list of loops.
* `Graph.Draws.moves` — a block of a chart that is drawn from a sketch leads along an edge of the sketch, and the list
  changes as `Moves` says.
* `Session.Beats.tracked`, `Machine.Walk.tracks` — the invariant along a run of the main chart and through a body.
* `Program.Reaches` — control comes from a block, if from any, to a block of the main chart or of a body.
* **`Program.forLoop_starts`** — in a chart drawn from a tidy sketch, a counting loop runs its first clause whenever
  control comes from outside of its body.
* `Program.forLoop_goes_on` — in a chart that is not, it may run its last clause instead.
-/

namespace Flowchart

/-! ### Blocks and the list of loops -/

namespace Machine

/-- What a counting loop does with one of its clauses: it runs the clause and tests the condition. -/
def round (env : Environment Machine) (g : Graph) (id : BlockId) (clause condition : Text) : Action Machine Flow := do
  runClause env clause
  let outcome ← evaluateCondition env condition
  noteLoop id outcome
  pure (.next (g.afterCondition id outcome))

/-- A counting loop runs its last clause while it is being executed, and its first clause otherwise. -/
theorem execute_forLoop (env : Environment Machine) (g : Graph) {b : Block} {init condition increment : Text}
    (h : b.instruction = .ok (.forLoop init condition increment)) (m : Machine) :
    execute env g b m = round env g b.id (if b.id ∈ m.loops then increment else init) condition m := by
  have hround : execute env g b m =
      round env g b.id (if m.loops.contains b.id = true then increment else init) condition m := by
    unfold execute
    rw [h]
    rfl
  rw [hround]
  simp only [List.contains_iff_mem]

/-- The list of loops is the same. -/
def SameLoops (m n : Machine) : Prop := n.loops = m.loops

namespace SameLoops

theorem refl (m : Machine) : SameLoops m m := rfl

theorem trans (m n o : Machine) (h : SameLoops m n) (h' : SameLoops n o) : SameLoops m o := Eq.trans h' h

theorem poll (m : Machine) : SameLoops m m.poll := by
  unfold Machine.poll SameLoops
  split <;> rfl

/-- A call gives the loops of the caller back. -/
theorem call (p : Program) (limit allowance room : Nat) (name : String) (arguments : List Value) :
    ((environment (call p limit allowance room)).call name arguments).Keeps SameLoops :=
  fun m => (call_keeps p limit allowance room name arguments m).imp fun _ h => h.loops_eq

end SameLoops

section Blocks

variable {env : Environment Machine} (hcalls : ∀ name arguments, (env.call name arguments).Keeps SameLoops)
  {g : Graph} {id : BlockId} {i : Instruction} {m n : Machine} {flow : Flow}
include hcalls

/-- Blocks other than the heads of loops that are tracked leave the loops as they are. -/
theorem perform_keeps_loops (hkind : ∀ kind : Looping, i.kind ≠ kind.kind)
    (h : perform env g id i m = .done flow n) : n.loops = m.loops := by
  have hkeeps : (perform env g id i).Keeps SameLoops :=
    perform_keeps SameLoops.refl SameLoops.trans hcalls g id (fun _ _ _ _ => rfl) (fun _ _ => rfl) fun hloop => by
      rcases hloop with hloop | hloop
      · exact absurd hloop (hkind .testing)
      · exact absurd hloop (hkind .counting)
  have hends := hkeeps m
  rw [h] at hends
  exact hends

/-- The condition of a block leaves the loops as they are. -/
theorem condition_keeps_loops {condition : Text} {outcome : Bool}
    (h : evaluateCondition env condition m = .done outcome n) : n.loops = m.loops := by
  have hends := evaluateCondition_keeps SameLoops.refl SameLoops.trans hcalls condition m
  rw [h] at hends
  exact hends

/-- **At the head of a loop that is tracked** the outcome of the test is noted, and it says where control goes. -/
theorem perform_tracks {kind : Looping} (hkind : i.kind = kind.kind) (h : perform env g id i m = .done flow n) :
    ∃ outcome, flow = .next (g.afterCondition id outcome) ∧ n.loops = trackLoop id outcome m.loops := by
  cases i with
  | whileLoop condition =>
    obtain ⟨outcome, m₁, hcondition, h⟩ := Action.exists_of_bind_done h
    obtain ⟨_, m₂, hnote, h⟩ := Action.exists_of_bind_done h
    cases hnote
    cases h
    refine ⟨outcome, rfl, ?_⟩
    show trackLoop id outcome m₁.loops = _
    rw [condition_keeps_loops hcalls hcondition]
  | forLoop init condition increment =>
    obtain ⟨again, m₁, hloop, h⟩ := Action.exists_of_bind_done h
    cases hloop
    obtain ⟨_, m₂, hclause, h⟩ := Action.exists_of_bind_done h
    obtain ⟨outcome, m₃, hcondition, h⟩ := Action.exists_of_bind_done h
    obtain ⟨_, m₄, hnote, h⟩ := Action.exists_of_bind_done h
    cases hnote
    cases h
    have hkeeps : (runClause env (if m.loops.contains id = true then increment else init)).Keeps SameLoops :=
      runClause_keeps SameLoops.refl SameLoops.trans hcalls fun _ _ _ _ => rfl
    have hends := hkeeps m
    rw [hclause] at hends
    refine ⟨outcome, rfl, ?_⟩
    show trackLoop id outcome m₃.loops = _
    rw [condition_keeps_loops hcalls hcondition, hends]
  | _ => cases kind <;> cases hkind

end Blocks

end Machine

/-! ### Charts that are drawn from sketches -/

namespace Graph.Draws

variable {g : Graph} {s : Sketch} (hs : g.Draws s)
include hs

/-- Every edge of the chart is an edge of the sketch, but for the text on it. -/
theorem exists_edge {id t : BlockId} (h : t ∈ g.targets id) : ∃ e ∈ s.edges, e.source = id ∧ e.target = t := by
  obtain ⟨e, hout, rfl⟩ := List.mem_map.mp h
  obtain ⟨he, hsource⟩ := mem_outgoing.mp hout
  exact ⟨e.bare, hs.edges.mem_iff.mp (List.mem_map_of_mem he), hsource, rfl⟩

theorem exists_tagged {id : BlockId} {branch : Branch} {e : Edge} (h : g.taggedEdge? id branch = some e) :
    ∃ e' ∈ s.edges, e'.source = id ∧ e'.target = e.target ∧ e'.branch = some branch := by
  obtain ⟨he, rfl⟩ := mem_outgoing.mp (List.mem_of_find?_eq_some h)
  have hbranch : e.branch = some branch := by simpa using List.find?_some h
  exact ⟨e.bare, hs.edges.mem_iff.mp (List.mem_map_of_mem he), rfl, rfl, hbranch⟩

/-- Two blocks with one number are the same. -/
theorem block_unique {b c : Block} (hb : b ∈ g.blocks) (hc : c ∈ s.blocks) (h : c.id = b.id) : c = b :=
  List.inj_on_of_nodup_map s.nodup_blocks hc (hs.blocks.mem_iff.mp hb) h

/-- A block of the kind of a loop that is tracked is the head of one. -/
theorem exists_heading {b : Block} (hb : b ∈ g.blocks) {kind : Looping} (hkind : b.kind = kind.kind) :
    ∃ k ∈ s.headings, k.head = b.id ∧ k.kind = kind := by
  rcases List.mem_cons.mp (hs.blocks.mem_iff.mp hb) with rfl | hb
  · cases kind <;> cases hkind
  · rcases List.mem_cons.mp hb with rfl | hb
    · cases kind <;> cases hkind
    · exact Routine.exists_heading hb hkind

/-- A block of another kind is not. -/
theorem not_head {b : Block} (hb : b ∈ g.blocks) (hkind : ∀ kind : Looping, b.kind ≠ kind.kind) :
    ∀ k ∈ s.headings, k.head ≠ b.id := by
  intro k hk hhead
  obtain ⟨c, hc, hid, hckind⟩ := Routine.exists_block hk
  have hmem : c ∈ s.blocks := List.mem_cons_of_mem _ (List.mem_cons_of_mem _ hc)
  rw [hs.block_unique hb hmem (hid.trans hhead)] at hckind
  exact hkind k.kind hckind

/-- A block that is no head leads along any of its edges, with the loops as they are. -/
theorem moves_past {b : Block} (hb : b ∈ g.blocks) (hkind : ∀ kind : Looping, b.kind ≠ kind.kind) {t : BlockId}
    (ht : t ∈ g.targets b.id) (loops : List BlockId) :
    ∃ e ∈ s.edges, e.source = b.id ∧ e.target = t ∧ Moves s.headings e loops loops := by
  obtain ⟨e, he, hsource, htarget⟩ := hs.exists_edge ht
  exact ⟨e, he, hsource, htarget, .past (hsource ▸ hs.not_head hb hkind)⟩

/-- **A block leads along an edge of the sketch**, and the loops become what they become along this edge. -/
theorem moves (hg : g.Sound) {env : Environment Machine}
    (hcalls : ∀ name arguments, (env.call name arguments).Keeps Machine.SameLoops) {b : Block} (hb : b ∈ g.blocks)
    {t : BlockId} {m n : Machine} (h : Machine.execute env g b m = .done (.next (some t)) n) :
    ∃ e ∈ s.edges, e.source = b.id ∧ e.target = t ∧ Moves s.headings e m.loops n.loops := by
  obtain ⟨i, hlabel, hperform⟩ := Machine.exists_of_execute_done h
  have hikind := Block.kind_of_instruction hlabel
  by_cases hkind : ∃ kind : Looping, b.kind = kind.kind
  · obtain ⟨kind, hkind⟩ := hkind
    obtain ⟨outcome, hflow, hloops⟩ := Machine.perform_tracks hcalls (hikind.trans hkind) hperform
    have hbranching : b.kind.isBranching = true := by
      rw [hkind]
      cases kind <;> rfl
    obtain ⟨tagged, htagged⟩ := hg.branch b hb hbranching (Branch.ofBool outcome)
    obtain ⟨e, he, hsource, htarget, hbranch⟩ := hs.exists_tagged htagged
    obtain ⟨k, hk, hhead, -⟩ := hs.exists_heading hb hkind
    rw [Graph.Sound.afterCondition_eq outcome htagged] at hflow
    cases hflow
    refine ⟨e, he, hsource, htarget, ?_⟩
    rw [hloops, ← hsource]
    exact .tested hk (hhead.trans hsource.symm) hbranch
  · have hno : ∀ kind : Looping, b.kind ≠ kind.kind := fun kind hk => hkind ⟨kind, hk⟩
    rw [Machine.perform_keeps_loops hcalls (fun kind => hikind ▸ hno kind) hperform]
    exact hs.moves_past hb hno (Machine.perform_target hperform) m.loops

/-- At the start block no loop is being executed. -/
theorem tracks_start {id : BlockId} (h : g.start? = some id) : Tracks s.edges s.headings none id [] := by
  refine .start fun k hk hin => ?_
  obtain ⟨b, hb, hkind, rfl⟩ := exists_of_firstOf? h
  obtain ⟨c, hc, hid⟩ := List.mem_map.mp (Routine.mem_ids_of_mem_body hk b.id hin)
  have hmem : c ∈ s.blocks := List.mem_cons_of_mem _ (List.mem_cons_of_mem _ hc)
  obtain rfl := hs.block_unique hb hmem hid
  exact Routine.kind_ne_start hc hkind

end Graph.Draws

/-! ### Runs of the main chart -/

/-- The block of which the host was told last. -/
def Trace.last? (es : Trace) : Option BlockId := es.visited.getLast?

theorem Trace.last?_append (es es' : Trace) : Trace.last? (es ++ es') = es'.last?.or es.last? := by
  unfold Trace.last? Trace.visited
  rw [List.filterMap_append, List.getLast?_append]

namespace Session

/-- The invariant of a run: the loops tell of the block that comes next, and while a value is wanted, of the block that
wants it. -/
structure Tracked (p : Program) (s : Sketch) (source : Option BlockId) (t : Session) : Prop where
  program_eq : t.program = p
  going : t.Going → ∀ id, t.current = some id → Tracks s.edges s.headings source id t.machine.loops
  waiting : t.state = .paused → ∃ b ∈ p.main.blocks, t.inputBlock.bind p.main.block? = some b ∧ b.kind = .input ∧
    Tracks s.edges s.headings source b.id t.machine.loops

namespace Tracked

variable {p : Program} {s : Sketch} {source : Option BlockId} {t : Session}

theorem of_idle (hp : t.program = p) (h : t.state = .idle) : t.Tracked p s source where
  program_eq := hp
  going hgoing := absurd h hgoing.ne_idle
  waiting hpaused := by
    rw [h] at hpaused
    cases hpaused

theorem of_going (hp : t.program = p) (h : t.Going)
    (htracks : ∀ id, t.current = some id → Tracks s.edges s.headings source id t.machine.loops) :
    t.Tracked p s source where
  program_eq := hp
  going _ := htracks
  waiting hpaused := absurd hpaused h.ne_paused

theorem calm (h : t.Tracked p s source) : t.calm.Tracked p s source where
  program_eq := h.program_eq
  going hgoing := by
    refine h.going (going_of_ne (fun hidle => ?_) fun hpaused => ?_)
    · exact hgoing.ne_idle ((calm_state_of_ne (by rw [hidle]; exact RunState.noConfusion)).trans hidle)
    · exact hgoing.ne_paused ((calm_state_of_ne (by rw [hpaused]; exact RunState.noConfusion)).trans hpaused)
  waiting hpaused := by
    refine h.waiting ?_
    by_cases hrunning : t.state = .running
    · rw [calm_of_running hrunning] at hpaused
      cases hpaused
    · rwa [calm_state_of_ne hrunning] at hpaused

/-- Behind a block the loops tell of the next one, unless the run is over. -/
theorem arrive {b : Block} (hp : t.program = p) (hgoing : t.Going)
    (htracks : ∀ id, t.current = some id → Tracks s.edges s.headings (some b.id) id t.machine.loops) :
    (t.arrive {} b).1.Tracked p s ((Trace.last? (t.arrive {} b).2).or source) := by
  rcases arrive_cases {} b t with hx | hx
  · rw [hx, accept_nothing]
    exact of_going hp hgoing htracks
  · rw [hx]
    exact of_idle hp rfl

section
variable (hg : p.main.Sound) (hs : p.main.Draws s)
include hg hs

/-- **One block of a run.** -/
theorem executeStep (h : t.Tracked p s source) (hstate : t.state = .stepping) {allowance : Nat} {u : Session}
    {es : List Event} (hstep : t.executeStep allowance {} = some (u, es)) :
    u.Tracked p s ((Trace.last? es).or source) := by
  unfold Session.executeStep at hstep
  split at hstep
  · cases hstep
    exact of_idle h.program_eq rfl
  cases hnext : t.nextBlock? with
  | none =>
    rw [hnext] at hstep
    cases hstep
    exact of_idle h.program_eq rfl
  | some b =>
    rw [hnext] at hstep
    dsimp only at hstep
    obtain ⟨hcurrent, hblock⟩ := nextBlock?_spec hnext
    rw [h.program_eq] at hblock hstep
    have hb := (Graph.mem_of_block? hblock).1
    have htracks := h.going (.inr hstate) b.id hcurrent
    cases hmain : Machine.executeMain p t.setup.callLimit allowance b t.machine with
    | done flow m =>
      rw [hmain] at hstep
      cases flow with
      | next target =>
        have hbehind : ∀ id, target = some id → Tracks s.edges s.headings (some b.id) id m.loops := by
          rintro id rfl
          obtain ⟨e, he, hsource, rfl, hmoves⟩ := hs.moves hg (Machine.SameLoops.call _ _ _ _) hb hmain
          rw [← hsource] at htracks ⊢
          exact htracks.step s.fits he hmoves
        have harrive := @arrive p s source { t with machine := m, current := target } b h.program_eq (.inr hstate)
          hbehind
        rw [Option.some.inj hstep] at harrive
        exact harrive
      | awaitInput names =>
        obtain ⟨hlabel, rfl⟩ := Machine.executeMain_awaits hmain
        cases hstep
        have hnone : Trace.last? (names.head?.toList.map .inputRequired) = none := by cases names <;> rfl
        rw [hnone, Option.none_or]
        exact {
          program_eq := h.program_eq
          going := fun hgoing => absurd rfl hgoing.ne_paused
          waiting := fun _ => ⟨b, hb, hblock, (Block.kind_of_instruction hlabel).symm, htracks⟩ }
    | failed f m =>
      rw [hmain] at hstep
      cases f <;> cases hstep <;> exact of_idle h.program_eq rfl
    | unfinished =>
      rw [hmain] at hstep
      cases hstep

omit hg in
/-- **An answer**: after the last one control leaves the block that wanted it. -/
theorem absorb (h : t.Tracked p s source) (hpaused : t.state = .paused) (text : String) :
    (t.absorb text).1.Tracked p s ((Trace.last? (t.absorb text).2).or source) := by
  obtain ⟨b, hb, hblock, hkind, htracks⟩ := h.waiting hpaused
  unfold Session.absorb
  match t.pending with
  | [] => exact h
  | name :: next :: rest =>
    exact {
      program_eq := h.program_eq
      going := fun hgoing => absurd hpaused hgoing.ne_paused
      waiting := fun _ => ⟨b, hb, hblock, hkind, htracks⟩ }
  | [name] =>
    have hblock' : t.inputBlock.bind t.program.main.block? = some b := by rwa [h.program_eq]
    have hno : ∀ kind : Looping, b.kind ≠ kind.kind := by
      rw [hkind]
      intro kind
      cases kind <;> exact BlockKind.noConfusion
    have hbehind : ∀ id, t.program.main.successor? b.id = some id →
        Tracks s.edges s.headings (some b.id) id t.machine.loops := by
      intro id hid
      rw [h.program_eq] at hid
      obtain ⟨e, he, hsource, rfl, hmoves⟩ :=
        hs.moves_past hb hno (Graph.mem_targets_of_successor hid) t.machine.loops
      rw [← hsource] at htracks ⊢
      exact htracks.step s.fits he hmoves
    dsimp only
    unfold Session.leaveInput
    dsimp only [Session.answer, Session.program] at hblock' hbehind ⊢
    rw [hblock']
    exact arrive h.program_eq (.inr rfl) hbehind

end

end Tracked

/-- **A whole run**, by induction on its beats. -/
theorem Beats.tracked {p : Program} {s : Sketch} (hg : p.main.Sound) (hs : p.main.Draws s)
    {answers left : List String} {t u : Session} {es : List Event} (hbeats : Beats answers t es left u)
    {source : Option BlockId} (h : t.Tracked p s source) : u.Tracked p s ((Trace.last? es).or source) := by
  induction hbeats generalizing source with
  | rest => exact h
  | block hstate hstep _ ih =>
    rw [Trace.last?_append, Option.or_assoc]
    exact ih (h.executeStep hg hs hstate hstep).calm
  | answer hpaused _ ih =>
    rw [Trace.last?_append, Option.or_assoc]
    exact ih (h.absorb hs hpaused _).calm

/-- At the beginning of a run no loop is being executed. -/
theorem tracked_opened {s : Sketch} {t : Session} (hs : t.program.main.Draws s) :
    t.opened.Tracked t.program s none :=
  .of_going rfl (.inr rfl) fun _ hid => hs.tracks_start hid

end Session

/-! ### Bodies -/

/-- **The way through a body**, by induction on the walk. -/
theorem Machine.Walk.tracks {g : Graph} {s : Sketch} (hg : g.Sound) (hs : g.Draws s) {env : Environment Machine}
    (hcalls : ∀ name arguments, (env.call name arguments).Keeps SameLoops) {finish : BlockId}
    {id last : Option BlockId} {m n : Machine} (h : Walk (execute env g) g finish id m last n)
    {source : Option BlockId} (htracks : ∀ i, id = some i → Tracks s.edges s.headings source i m.loops) :
    ∃ source', ∀ i, last = some i → Tracks s.edges s.headings source' i n.loops := by
  induction h generalizing source with
  | here => exact ⟨source, htracks⟩
  | @block id b target last m n k _ _ hb hstep _ ih =>
    obtain ⟨hmem, rfl⟩ := Graph.mem_of_block? hb
    refine @ih (some b.id) ?_
    rintro i rfl
    obtain ⟨e, he, hsource, rfl, hmoves⟩ := hs.moves hg hcalls hmem hstep
    have hhere := htracks b.id rfl
    rw [← SameLoops.poll m, ← hsource] at hhere
    rw [← hsource]
    exact hhere.step s.fits he hmoves

/-! ### Counting loops -/

namespace Program

/-- Control comes from a block, if from any, to a block of a chart: of the main chart, in a run with any answers, or of
the body of a function, in any call of it.  The machine is the one in which the block is then executed. -/
inductive Reaches (p : Program) : Graph → Option BlockId → Block → Machine → Prop where
  | main {answers left : List String} {t u : Session} {es : List Event} {b : Block} (hp : t.program = p)
      (h : Session.Beats answers t.opened es left u) (hstate : u.state = .stepping) (hb : u.nextBlock? = some b) :
      Reaches p p.main (Trace.last? es) b u.machine
  /-- A call begins. -/
  | entered {name : String} {f : Function} {b : Block} {m : Machine} (hf : p.functions.get? name = some f)
      (hstart : f.body.start? = some b.id) (hb : f.body.block? b.id = some b) (arguments : List Value) :
      Reaches p f.body none b (m.enter (f.frame name arguments)).poll
  | body {name : String} {f : Function} {limit allowance room : Nat} {arguments : List Value}
      {start finish : BlockId} {a b : Block} {m n k : Machine} (hf : p.functions.get? name = some f)
      (hstart : f.body.start? = some start) (hfinish : f.body.finish? = some finish)
      (hwalk : Machine.Walk (Machine.execute (Machine.environment (Machine.call p limit allowance room)) f.body) f.body
        finish (some start) (m.enter (f.frame name arguments)) (some a.id) n)
      (ha : f.body.block? a.id = some a)
      (hstep : Machine.execute (Machine.environment (Machine.call p limit allowance room)) f.body a n.poll =
        .done (.next (some b.id)) k)
      (hb : f.body.block? b.id = some b) : Reaches p f.body (some a.id) b k.poll

variable {p : Program} {g : Graph} {source : Option BlockId} {b : Block} {m : Machine}

theorem body_mem_charts {name : String} {f : Function} (hf : p.functions.get? name = some f) : f.body ∈ p.charts := by
  obtain ⟨place, -, hplace⟩ := Option.bind_eq_some_iff.mp hf
  exact List.mem_cons_of_mem _ (List.mem_map_of_mem (List.mem_of_getElem? hplace))

/-- **Wherever control comes to**, the block is one of the chart, and the loops tell of it. -/
theorem Reaches.tracks (hp : p.validate = .ok ()) {s : Sketch} (hs : g.Draws s) (h : p.Reaches g source b m) :
    b ∈ g.blocks ∧ Tracks s.edges s.headings source b.id m.loops := by
  cases h with
  | @main answers left t u es _ hprogram h hstate hb =>
    subst hprogram
    have htracked := h.tracked (Program.sound_of_validate hp List.mem_cons_self) hs (Session.tracked_opened hs)
    obtain ⟨hcurrent, hblock⟩ := Session.nextBlock?_spec hb
    rw [htracked.program_eq] at hblock
    rw [Option.or_none] at htracked
    exact ⟨(Graph.mem_of_block? hblock).1, htracked.going (.inr hstate) b.id hcurrent⟩
  | entered hf hstart hb arguments =>
    refine ⟨(Graph.mem_of_block? hb).1, ?_⟩
    rw [Machine.SameLoops.poll]
    exact hs.tracks_start hstart
  | @body name f limit allowance room arguments start finish a _ m n k hf hstart _ hwalk ha hstep hb =>
    have hg := Program.sound_of_validate hp (body_mem_charts hf)
    have hcalls := Machine.SameLoops.call p limit allowance room
    have hopened : ∀ i, some start = some i →
        Tracks s.edges s.headings none i (m.enter (f.frame name arguments)).loops := by
      intro i hi
      cases hi
      exact hs.tracks_start hstart
    obtain ⟨source', hthere⟩ := hwalk.tracks hg hs hcalls hopened
    have hhere := hthere a.id rfl
    obtain ⟨e, he, hsource, htarget, hmoves⟩ := hs.moves hg hcalls (Graph.mem_of_block? ha).1 hstep
    rw [← Machine.SameLoops.poll n, ← hsource] at hhere
    refine ⟨(Graph.mem_of_block? hb).1, ?_⟩
    rw [Machine.SameLoops.poll, ← hsource, ← htarget]
    exact hhere.step s.fits he hmoves

/-- **A counting loop starts afresh** whenever control comes from outside of its body, in a chart that is drawn from a
tidy sketch: it runs its first clause then, and its last clause when control comes back from the body.  It does not
matter how the loop was left before, nor in which of the loops around it control has come round. -/
theorem forLoop_starts (hp : p.validate = .ok ()) {s : Sketch} (hs : g.Draws s) (htidy : s.routine.tidy = true)
    (h : p.Reaches g source b m) {init condition increment : Text}
    (hb : b.instruction = .ok (.forLoop init condition increment)) :
    ∃ k ∈ s.headings, k.head = b.id ∧ ∀ env, Machine.execute env g b m =
      Machine.round env g b.id (if k.Continues source then increment else init) condition m := by
  obtain ⟨hmem, htracks⟩ := h.tracks hp hs
  have hkind : b.kind = Looping.counting.kind := (Block.kind_of_instruction hb).symm
  obtain ⟨k, hk, hhead, hcounting⟩ := hs.exists_heading hmem hkind
  obtain ⟨zone, hzone⟩ := s.guards htidy k hk hcounting
  rw [← hhead] at htracks
  refine ⟨k, hk, hhead, fun env => ?_⟩
  rw [Machine.execute_forLoop env g hb, ← hhead]
  simp only [htracks.mem_iff hk hzone]

/-- An unbroken run that pauses has come to the block before which it pauses. -/
theorem reaches_of_runLoop {allowance fuel : Nat} {pauses : Nat → Bool} {t u : Session} {es : List Event} {b : Block}
    (h : Session.runLoop allowance (.pausing pauses) fuel 0 [] { t.reset with state := .running } = some (u, es))
    (hstate : u.state = .stepping) (hb : u.nextBlock? = some b) :
    t.program.Reaches t.program.main (Trace.last? es) b u.machine := by
  obtain ⟨new, hes, hbeats⟩ := Session.beats_of_runLoop [] h
  rw [List.reverse_nil, List.nil_append] at hes
  have hcalm : u.calm.state = .stepping := by
    rw [Session.calm_state_of_ne (by rw [hstate]; exact RunState.noConfusion), hstate]
  rw [hes]
  exact @Reaches.main t.program [] [] t u.calm new b rfl hbeats hcalm hb

end Program

/-! ### One loop in another -/

/-- The program whose main chart consists of the blocks and edges of a sketch. -/
def Sketch.program (s : Sketch) : Program := { main := { blocks := s.blocks, edges := s.edges } }

/-- The state in which an action ends, if it does. -/
def Outcome.state? {σ α : Type} : Outcome σ α → Option σ
  | .done _ s => some s
  | .failed _ s => some s
  | .unfinished => none

/-- A counting loop that is left in its first pass. -/
def countingBriefly : Block := ⟨3, .forLoop, "i = 10; i < 20; i = i + 1"⟩

/-- The counting loop in the body of another loop, which is executed twice. -/
def countingTwice (around : Routine → Routine → Routine) : Routine :=
  .simple .assignment ⟨1, "n = 0"⟩
    (around
      (.loop .counting ⟨3, "i = 10; i < 20; i = i + 1"⟩ (.leave ⟨4, "1 == 1"⟩ .done)
        (.simple .assignment ⟨5, "n = n + 1"⟩ .done))
      (.simple .output ⟨7, "i"⟩ .done))

/-- The loop around it tests before its body. -/
def testingAround : Sketch where
  start := ⟨0, ""⟩
  finish := ⟨8, ""⟩
  routine := countingTwice (.loop .testing ⟨2, "n < 2"⟩)
  nodup := by decide

/-- The loop around it tests after its body. -/
def testingAfter : Sketch where
  start := ⟨0, ""⟩
  finish := ⟨8, ""⟩
  routine := countingTwice (.doLoop ⟨2, ""⟩ ⟨6, "n < 2"⟩)
  nodup := by decide

/-- The machine when the counting loop is come to for the second time, with the loops that are in its list. -/
def onceCounted (loops : List BlockId) : Machine :=
  { scope := { globals := [("n", .int 1), ("i", .int 10)] }, loops }

theorem countingBriefly_instruction : countingBriefly.instruction =
    .ok (.forLoop "i = 10".toList "i < 20".toList "i = i + 1".toList) := by cbv

/-- The outcome of a run up to the block before which it pauses. -/
theorem reaches_onceCounted {s : Sketch} {pauses : Nat → Bool} {loops : List BlockId}
    (h : (Session.runLoop 30 (.pausing pauses) 30 0 []
        { (Session.new { program := s.program }).reset with state := .running }).map
        (fun x => (x.1.state, x.1.nextBlock?, Trace.last? x.2, x.1.machine)) =
      some (.stepping, some countingBriefly, some 2, onceCounted loops)) :
    s.program.Reaches s.program.main (some 2) countingBriefly (onceCounted loops) := by
  obtain ⟨⟨u, es⟩, hrun, hx⟩ := Option.map_eq_some_iff.mp h
  obtain ⟨hstate, hx⟩ := Prod.mk.inj hx
  obtain ⟨hb, hx⟩ := Prod.mk.inj hx
  obtain ⟨hlast, hmachine⟩ := Prod.mk.inj hx
  have hreaches := Program.reaches_of_runLoop hrun hstate hb
  rw [hlast, hmachine] at hreaches
  exact hreaches

namespace Program

/-- After an early exit the loop starts afresh when the loop around it comes round. -/
theorem forLoop_starts_testingAround :
    testingAround.program.validate = .ok () ∧ testingAround.program.main.Draws testingAround ∧
      testingAround.routine.tidy = true ∧
      testingAround.program.Reaches testingAround.program.main (some 2) countingBriefly (onceCounted [2]) ∧
      ∀ env, Machine.execute env testingAround.program.main countingBriefly (onceCounted [2]) =
        Machine.round env testingAround.program.main 3 "i = 10".toList "i < 20".toList (onceCounted [2]) := by
  have hp : testingAround.program.validate = .ok () := by decide +kernel
  have hs : testingAround.program.main.Draws testingAround := ⟨.refl _, .of_eq rfl⟩
  have hreaches : testingAround.program.Reaches testingAround.program.main (some 2) countingBriefly
      (onceCounted [2]) := by
    refine @reaches_onceCounted testingAround (· == 6) [2] ?_
    decide +kernel
  obtain ⟨k, hk, hhead, hround⟩ := forLoop_starts hp hs rfl hreaches countingBriefly_instruction
  refine ⟨hp, hs, rfl, hreaches, fun env => ?_⟩
  have hfresh : ¬k.Continues (some 2) := by
    have hheadings : testingAround.headings = [⟨2, .testing, [3, 4, 5]⟩, ⟨3, .counting, [4]⟩] := by decide
    rw [hheadings, List.mem_cons, List.mem_singleton] at hk
    rcases hk with rfl | rfl
    · cases hhead
    · decide
  rw [hround env, if_neg hfresh]
  rfl

/-- **A loop that tests after its body does not end the loops in it.**  Control comes to the counting loop from the
block before it, but since the loop was left early it is still in the list, and it runs its last clause. -/
theorem forLoop_goes_on :
    testingAfter.program.validate = .ok () ∧ testingAfter.program.main.Draws testingAfter ∧
      testingAfter.program.Reaches testingAfter.program.main (some 2) countingBriefly (onceCounted [3]) ∧
      ⟨3, .counting, [4]⟩ ∈ testingAfter.headings ∧ ¬Heading.Continues ⟨3, .counting, [4]⟩ (some 2) ∧
      (∀ env, Machine.execute env testingAfter.program.main countingBriefly (onceCounted [3]) =
        Machine.round env testingAfter.program.main 3 "i = i + 1".toList "i < 20".toList (onceCounted [3])) ∧
      ¬∀ env, Machine.execute env testingAfter.program.main countingBriefly (onceCounted [3]) =
        Machine.round env testingAfter.program.main 3 "i = 10".toList "i < 20".toList (onceCounted [3]) := by
  have hround : ∀ env, Machine.execute env testingAfter.program.main countingBriefly (onceCounted [3]) =
      Machine.round env testingAfter.program.main 3 "i = i + 1".toList "i < 20".toList (onceCounted [3]) := by
    intro env
    rw [Machine.execute_forLoop env _ countingBriefly_instruction]
    rfl
  refine ⟨by decide +kernel, ⟨.refl _, .of_eq rfl⟩, ?_, by decide, by decide, hround, fun hstarts => ?_⟩
  · refine @reaches_onceCounted testingAfter (· == 7) [3] ?_
    decide +kernel
  · -- The two clauses leave the variable with different values.
    let env : Environment Machine := Machine.environment fun _ _ => pure (.int 0)
    have hstate := congrArg Outcome.state? ((hround env).symm.trans (hstarts env))
    exact absurd hstate (by decide +kernel)

end Program

end Flowchart
