import Flowchart.Proofs.Script.Layout

/-!
# Structured charts with early exits

A loop need not be left at its test.  A chart may have a condition in the middle of a body with an edge that leads
out of the loop, to where the loop leads when it is over.  Such a chart is still drawn from a tree, but the edges of
a part now lead to two places outside of it: to what follows the part, and to what follows the innermost loop.

* `Routine` — the tree, with a statement for the way out.
* `Routine.entry`, `Routine.blocks`, `Routine.edges` — how it is drawn, as for a `Script`.
* `Heading`, `Routine.headings` — the loops that are tracked while they are executed: their heads, and the blocks of
  their bodies.
* `Routine.leaves`, `Routine.leavesCounting`, `Routine.Tidy` — where the ways out are.  A routine is tidy if no
  counting loop with a way out has a loop that tests after its body as the innermost loop around it.
* `Sketch`, `Graph.Draws` — a routine between a start block and an end block, and the charts that are drawn so.
-/

namespace Flowchart

/-! ### Routines -/

/-- Statements, one after the other, with early exits. -/
inductive Routine where
  | done
  | simple (kind : Simple) (node : Node) (next : Routine)
  /-- A choice, whose branches meet in a merge block of its own. -/
  | choice (test join : Node) (yes no next : Routine)
  | loop (kind : Looping) (head : Node) (body next : Routine)
  /-- A loop that tests after its body, which begins with a merge block. -/
  | doLoop (entry test : Node) (body next : Routine)
  /-- A way out: if the test succeeds, the innermost loop is left. -/
  | leave (test : Node) (next : Routine)
  deriving Repr, DecidableEq

/-- A loop that is tracked: the block at its head, its kind, and the blocks of its body. -/
structure Heading where
  head : BlockId
  kind : Looping
  body : List BlockId
  deriving Repr, DecidableEq

namespace Routine

/-- The number of the first block; an empty routine is left where it is entered. -/
def entry (exit : BlockId) : Routine → BlockId
  | done => exit
  | simple _ node _ => node.id
  | choice test _ _ _ _ => test.id
  | loop _ head _ _ => head.id
  | doLoop entry _ _ _ => entry.id
  | leave test _ => test.id

/-- The blocks of a routine. -/
def blocks : Routine → List Block
  | done => []
  | simple kind node next => node.block kind.kind :: next.blocks
  | choice test join yes no next =>
    test.block .conditional :: join.block .merge :: (yes.blocks ++ no.blocks ++ next.blocks)
  | loop kind head body next => head.block kind.kind :: (body.blocks ++ next.blocks)
  | doLoop entry test body next =>
    entry.block .merge :: test.block .doWhile :: (body.blocks ++ next.blocks)
  | leave test next => test.block .conditional :: next.blocks

/-- The numbers of the blocks of a routine. -/
def ids (r : Routine) : List BlockId := r.blocks.map Block.id

/-- The edges of a routine that is left for the block `exit` at its end, and for the block `out` by a way out of the
loop in whose body it stands. -/
def edges (exit out : BlockId) : Routine → List Edge
  | done => []
  | simple _ node next => { source := node.id, target := next.entry exit } :: next.edges exit out
  | choice test join yes no next =>
    { source := test.id, target := yes.entry join.id, branch := some .whenTrue } ::
      { source := test.id, target := no.entry join.id, branch := some .whenFalse } ::
      { source := join.id, target := next.entry exit } ::
      (yes.edges join.id out ++ no.edges join.id out ++ next.edges exit out)
  | loop _ head body next =>
    { source := head.id, target := body.entry head.id, branch := some .whenTrue } ::
      { source := head.id, target := next.entry exit, branch := some .whenFalse } ::
      (body.edges head.id (next.entry exit) ++ next.edges exit out)
  | doLoop entry test body next =>
    { source := entry.id, target := body.entry test.id } ::
      { source := test.id, target := entry.id, branch := some .whenTrue } ::
      { source := test.id, target := next.entry exit, branch := some .whenFalse } ::
      (body.edges test.id (next.entry exit) ++ next.edges exit out)
  | leave test next =>
    { source := test.id, target := out, branch := some .whenTrue } ::
      { source := test.id, target := next.entry exit, branch := some .whenFalse } :: next.edges exit out

/-- The loops of a routine that are tracked.  A loop that tests after its body is not. -/
def headings : Routine → List Heading
  | done => []
  | simple _ _ next => next.headings
  | choice _ _ yes no next => yes.headings ++ no.headings ++ next.headings
  | loop kind head body next => ⟨head.id, kind, body.ids⟩ :: (body.headings ++ next.headings)
  | doLoop _ _ body next => body.headings ++ next.headings
  | leave _ next => next.headings

/-! ### Ways out -/

/-- There is a way out of the loop in whose body the routine stands. -/
def leaves : Routine → Bool
  | done => false
  | simple _ _ next => next.leaves
  | choice _ _ yes no next => yes.leaves || no.leaves || next.leaves
  | loop _ _ _ next => next.leaves
  | doLoop _ _ _ next => next.leaves
  | leave _ _ => true

/-- There is a way out of a counting loop of the routine that stands in no other loop of it. -/
def leavesCounting : Routine → Bool
  | done => false
  | simple _ _ next => next.leavesCounting
  | choice _ _ yes no next => yes.leavesCounting || no.leavesCounting || next.leavesCounting
  | loop kind _ body next => (decide (kind = .counting) && body.leaves) || next.leavesCounting
  | doLoop _ _ _ next => next.leavesCounting
  | leave _ next => next.leavesCounting

/-- No counting loop with a way out has a loop that tests after its body as the innermost loop around it. -/
def tidy : Routine → Bool
  | done => true
  | simple _ _ next => next.tidy
  | choice _ _ yes no next => yes.tidy && no.tidy && next.tidy
  | loop _ _ body next => body.tidy && next.tidy
  | doLoop _ _ body next => !body.leavesCounting && body.tidy && next.tidy
  | leave _ next => next.tidy

/-! ### Numbers -/

@[simp] theorem ids_done : ids done = [] := rfl

@[simp] theorem ids_simple (kind : Simple) (node : Node) (next : Routine) :
    (simple kind node next).ids = node.id :: next.ids := rfl

@[simp] theorem ids_choice (test join : Node) (yes no next : Routine) :
    (choice test join yes no next).ids = test.id :: join.id :: (yes.ids ++ no.ids ++ next.ids) := by
  simp [ids, blocks]

@[simp] theorem ids_loop (kind : Looping) (head : Node) (body next : Routine) :
    (loop kind head body next).ids = head.id :: (body.ids ++ next.ids) := by
  simp [ids, blocks]

@[simp] theorem ids_doLoop (entry test : Node) (body next : Routine) :
    (doLoop entry test body next).ids = entry.id :: test.id :: (body.ids ++ next.ids) := by
  simp [ids, blocks]

@[simp] theorem ids_leave (test : Node) (next : Routine) : (leave test next).ids = test.id :: next.ids := rfl

/-- A routine is entered at a block of its own, unless it is empty. -/
theorem entry_mem (exit : BlockId) (r : Routine) : r.entry exit = exit ∨ r.entry exit ∈ r.ids := by
  cases r with
  | done => exact .inl rfl
  | simple => exact .inr (by simp [entry])
  | choice => exact .inr (by simp [entry])
  | loop => exact .inr (by simp [entry])
  | doLoop => exact .inr (by simp [entry])
  | leave => exact .inr (by simp [entry])

/-- The edges of a routine begin at its blocks. -/
theorem source_mem {e : Edge} {exit out : BlockId} {r : Routine} (h : e ∈ r.edges exit out) : e.source ∈ r.ids := by
  induction r generalizing exit out with
  | done => cases h
  | simple kind node next ih =>
    simp only [edges, List.mem_cons] at h
    rw [ids_simple, List.mem_cons]
    exact h.imp (congrArg Edge.source) ih
  | choice test join yes no next ihy ihn ih =>
    simp only [edges, List.mem_cons, List.mem_append] at h
    simp only [ids_choice, List.mem_cons, List.mem_append]
    rcases h with rfl | rfl | rfl | (h | h) | h
    · exact .inl rfl
    · exact .inl rfl
    · exact .inr (.inl rfl)
    · exact .inr (.inr (.inl (.inl (ihy h))))
    · exact .inr (.inr (.inl (.inr (ihn h))))
    · exact .inr (.inr (.inr (ih h)))
  | loop kind head body next ihb ih =>
    simp only [edges, List.mem_cons, List.mem_append] at h
    simp only [ids_loop, List.mem_cons, List.mem_append]
    rcases h with rfl | rfl | h | h
    · exact .inl rfl
    · exact .inl rfl
    · exact .inr (.inl (ihb h))
    · exact .inr (.inr (ih h))
  | doLoop entry test body next ihb ih =>
    simp only [edges, List.mem_cons, List.mem_append] at h
    simp only [ids_doLoop, List.mem_cons, List.mem_append]
    rcases h with rfl | rfl | rfl | h | h
    · exact .inl rfl
    · exact .inr (.inl rfl)
    · exact .inr (.inl rfl)
    · exact .inr (.inr (.inl (ihb h)))
    · exact .inr (.inr (.inr (ih h)))
  | leave test next ih =>
    simp only [edges, List.mem_cons] at h
    rw [ids_leave, List.mem_cons]
    rcases h with rfl | rfl | h
    · exact .inl rfl
    · exact .inl rfl
    · exact .inr (ih h)

/-- The edges of a routine lead to its blocks, to what follows it, and, if there is a way out, to where that leads. -/
theorem target_mem {e : Edge} {exit out : BlockId} {r : Routine} (h : e ∈ r.edges exit out) :
    e.target ∈ r.ids ∨ e.target = exit ∨ (r.leaves = true ∧ e.target = out) := by
  induction r generalizing exit out with
  | done => cases h
  | simple kind node next ih =>
    simp only [edges, List.mem_cons] at h
    rw [ids_simple, List.mem_cons]
    rcases h with rfl | h
    · rcases next.entry_mem exit with hentry | hentry
      · exact .inr (.inl hentry)
      · exact .inl (.inr hentry)
    · exact (ih h).imp_left .inr
  | choice test join yes no next ihy ihn ih =>
    simp only [edges, List.mem_cons, List.mem_append] at h
    simp only [ids_choice, List.mem_cons, List.mem_append, leaves, Bool.or_eq_true]
    rcases h with rfl | rfl | rfl | (h | h) | h
    · rcases yes.entry_mem join.id with hentry | hentry
      · exact .inl (.inr (.inl hentry))
      · exact .inl (.inr (.inr (.inl (.inl hentry))))
    · rcases no.entry_mem join.id with hentry | hentry
      · exact .inl (.inr (.inl hentry))
      · exact .inl (.inr (.inr (.inl (.inr hentry))))
    · rcases next.entry_mem exit with hentry | hentry
      · exact .inr (.inl hentry)
      · exact .inl (.inr (.inr (.inr hentry)))
    · rcases ihy h with hin | hjoin | ⟨hleaves, hout⟩
      · exact .inl (.inr (.inr (.inl (.inl hin))))
      · exact .inl (.inr (.inl hjoin))
      · exact .inr (.inr ⟨.inl (.inl hleaves), hout⟩)
    · rcases ihn h with hin | hjoin | ⟨hleaves, hout⟩
      · exact .inl (.inr (.inr (.inl (.inr hin))))
      · exact .inl (.inr (.inl hjoin))
      · exact .inr (.inr ⟨.inl (.inr hleaves), hout⟩)
    · rcases ih h with hin | hexit | ⟨hleaves, hout⟩
      · exact .inl (.inr (.inr (.inr hin)))
      · exact .inr (.inl hexit)
      · exact .inr (.inr ⟨.inr hleaves, hout⟩)
  | loop kind head body next ihb ih =>
    have hafter : next.entry exit ∈ (loop kind head body next).ids ∨ next.entry exit = exit :=
      (next.entry_mem exit).symm.imp_left fun hentry => by simp [hentry]
    simp only [edges, List.mem_cons, List.mem_append] at h
    rcases h with rfl | rfl | h | h
    · rcases body.entry_mem head.id with hentry | hentry <;> exact .inl (by simp [hentry])
    · exact hafter.imp_right .inl
    · rcases ihb h with hin | hhead | ⟨-, hout⟩
      · exact .inl (by simp [hin])
      · exact .inl (by simp [hhead])
      · rw [hout]
        exact hafter.imp_right .inl
    · exact (ih h).imp_left fun hin => by simp [hin]
  | doLoop entry test body next ihb ih =>
    have hafter : next.entry exit ∈ (doLoop entry test body next).ids ∨ next.entry exit = exit :=
      (next.entry_mem exit).symm.imp_left fun hentry => by simp [hentry]
    simp only [edges, List.mem_cons, List.mem_append] at h
    rcases h with rfl | rfl | rfl | h | h
    · rcases body.entry_mem test.id with hentry | hentry <;> exact .inl (by simp [hentry])
    · exact .inl (by simp)
    · exact hafter.imp_right .inl
    · rcases ihb h with hin | htest | ⟨-, hout⟩
      · exact .inl (by simp [hin])
      · exact .inl (by simp [htest])
      · rw [hout]
        exact hafter.imp_right .inl
    · exact (ih h).imp_left fun hin => by simp [hin]
  | leave test next ih =>
    simp only [edges, List.mem_cons] at h
    simp only [ids_leave, List.mem_cons, leaves, true_and]
    rcases h with rfl | rfl | h
    · exact .inr (.inr rfl)
    · rcases next.entry_mem exit with hentry | hentry
      · exact .inr (.inl hentry)
      · exact .inl (.inr hentry)
    · rcases ih h with hin | hexit | ⟨-, hout⟩
      · exact .inl (.inr hin)
      · exact .inr (.inl hexit)
      · exact .inr (.inr hout)

/-! ### Blocks and loops -/

/-- No block of a routine is a start block. -/
theorem kind_ne_start {b : Block} {r : Routine} (h : b ∈ r.blocks) : b.kind ≠ .start := by
  induction r with
  | done => cases h
  | simple kind node next ih =>
    rcases List.mem_cons.mp h with rfl | h
    · cases kind <;> exact BlockKind.noConfusion
    · exact ih h
  | choice test join yes no next ihy ihn ih =>
    simp only [blocks, List.mem_cons, List.mem_append] at h
    rcases h with rfl | rfl | (h | h) | h
    · exact BlockKind.noConfusion
    · exact BlockKind.noConfusion
    · exact ihy h
    · exact ihn h
    · exact ih h
  | loop kind head body next ihb ih =>
    simp only [blocks, List.mem_cons, List.mem_append] at h
    rcases h with rfl | h | h
    · cases kind <;> exact BlockKind.noConfusion
    · exact ihb h
    · exact ih h
  | doLoop entry test body next ihb ih =>
    simp only [blocks, List.mem_cons, List.mem_append] at h
    rcases h with rfl | rfl | h | h
    · exact BlockKind.noConfusion
    · exact BlockKind.noConfusion
    · exact ihb h
    · exact ih h
  | leave test next ih =>
    rcases List.mem_cons.mp h with rfl | h
    · exact BlockKind.noConfusion
    · exact ih h

/-- The bodies of the loops of a routine consist of its blocks. -/
theorem mem_ids_of_mem_body {k : Heading} {r : Routine} (h : k ∈ r.headings) : ∀ i ∈ k.body, i ∈ r.ids := by
  induction r with
  | done => cases h
  | simple kind node next ih => exact fun i hi => List.mem_cons_of_mem _ (ih h i hi)
  | choice test join yes no next ihy ihn ih =>
    simp only [headings, List.mem_append] at h
    intro i hi
    rcases h with (h | h) | h
    · simp [ihy h i hi]
    · simp [ihn h i hi]
    · simp [ih h i hi]
  | loop kind head body next ihb ih =>
    simp only [headings, List.mem_cons, List.mem_append] at h
    intro i hi
    rcases h with rfl | h | h
    · have hbody : i ∈ body.ids := hi
      simp [hbody]
    · simp [ihb h i hi]
    · simp [ih h i hi]
  | doLoop entry test body next ihb ih =>
    simp only [headings, List.mem_append] at h
    intro i hi
    rcases h with h | h
    · simp [ihb h i hi]
    · simp [ih h i hi]
  | leave test next ih => exact fun i hi => List.mem_cons_of_mem _ (ih h i hi)

/-- A block of the kind of a loop that is tracked is the head of one. -/
theorem exists_heading {b : Block} {kind : Looping} {r : Routine} (h : b ∈ r.blocks) (hkind : b.kind = kind.kind) :
    ∃ k ∈ r.headings, k.head = b.id ∧ k.kind = kind := by
  induction r with
  | done => cases h
  | simple other node next ih =>
    rcases List.mem_cons.mp h with rfl | h
    · cases other <;> cases kind <;> cases hkind
    · exact ih h
  | choice test join yes no next ihy ihn ih =>
    simp only [blocks, List.mem_cons, List.mem_append] at h
    simp only [headings, List.mem_append]
    rcases h with rfl | rfl | (h | h) | h
    · cases kind <;> cases hkind
    · cases kind <;> cases hkind
    · obtain ⟨k, hk, hhead⟩ := ihy h
      exact ⟨k, .inl (.inl hk), hhead⟩
    · obtain ⟨k, hk, hhead⟩ := ihn h
      exact ⟨k, .inl (.inr hk), hhead⟩
    · obtain ⟨k, hk, hhead⟩ := ih h
      exact ⟨k, .inr hk, hhead⟩
  | loop other head body next ihb ih =>
    simp only [blocks, List.mem_cons, List.mem_append] at h
    simp only [headings, List.mem_cons, List.mem_append]
    rcases h with rfl | h | h
    · refine ⟨_, .inl rfl, rfl, ?_⟩
      cases other <;> cases kind
      · rfl
      · cases hkind
      · cases hkind
      · rfl
    · obtain ⟨k, hk, hhead⟩ := ihb h
      exact ⟨k, .inr (.inl hk), hhead⟩
    · obtain ⟨k, hk, hhead⟩ := ih h
      exact ⟨k, .inr (.inr hk), hhead⟩
  | doLoop entry test body next ihb ih =>
    simp only [blocks, List.mem_cons, List.mem_append] at h
    simp only [headings, List.mem_append]
    rcases h with rfl | rfl | h | h
    · cases kind <;> cases hkind
    · cases kind <;> cases hkind
    · obtain ⟨k, hk, hhead⟩ := ihb h
      exact ⟨k, .inl hk, hhead⟩
    · obtain ⟨k, hk, hhead⟩ := ih h
      exact ⟨k, .inr hk, hhead⟩
  | leave test next ih =>
    rcases List.mem_cons.mp h with rfl | h
    · cases kind <;> cases hkind
    · exact ih h

/-- At the head of a loop that is tracked stands a block of its kind. -/
theorem exists_block {k : Heading} {r : Routine} (h : k ∈ r.headings) :
    ∃ b ∈ r.blocks, b.id = k.head ∧ b.kind = k.kind.kind := by
  induction r with
  | done => cases h
  | simple kind node next ih =>
    obtain ⟨b, hb, hk⟩ := ih h
    exact ⟨b, List.mem_cons_of_mem _ hb, hk⟩
  | choice test join yes no next ihy ihn ih =>
    simp only [headings, List.mem_append] at h
    simp only [blocks, List.mem_cons, List.mem_append]
    rcases h with (h | h) | h
    · obtain ⟨b, hb, hk⟩ := ihy h
      exact ⟨b, .inr (.inr (.inl (.inl hb))), hk⟩
    · obtain ⟨b, hb, hk⟩ := ihn h
      exact ⟨b, .inr (.inr (.inl (.inr hb))), hk⟩
    · obtain ⟨b, hb, hk⟩ := ih h
      exact ⟨b, .inr (.inr (.inr hb)), hk⟩
  | loop kind head body next ihb ih =>
    simp only [headings, List.mem_cons, List.mem_append] at h
    simp only [blocks, List.mem_cons, List.mem_append]
    rcases h with rfl | h | h
    · exact ⟨_, .inl rfl, rfl, rfl⟩
    · obtain ⟨b, hb, hk⟩ := ihb h
      exact ⟨b, .inr (.inl hb), hk⟩
    · obtain ⟨b, hb, hk⟩ := ih h
      exact ⟨b, .inr (.inr hb), hk⟩
  | doLoop entry test body next ihb ih =>
    simp only [headings, List.mem_append] at h
    simp only [blocks, List.mem_cons, List.mem_append]
    rcases h with h | h
    · obtain ⟨b, hb, hk⟩ := ihb h
      exact ⟨b, .inr (.inr (.inl hb)), hk⟩
    · obtain ⟨b, hb, hk⟩ := ih h
      exact ⟨b, .inr (.inr (.inr hb)), hk⟩
  | leave test next ih =>
    obtain ⟨b, hb, hk⟩ := ih h
    exact ⟨b, List.mem_cons_of_mem _ hb, hk⟩

end Routine

/-! ### Sketches -/

/-- A routine between a start block and an end block, all of them with numbers of their own. -/
structure Sketch where
  start : Node
  finish : Node
  routine : Routine
  nodup : (start.id :: finish.id :: routine.ids).Nodup

namespace Sketch

/-- The blocks that a sketch calls for. -/
def blocks (s : Sketch) : List Block := s.start.block .start :: s.finish.block .finish :: s.routine.blocks

/-- The edges that a sketch calls for.  Outside all loops there is nothing to leave but the chart. -/
def edges (s : Sketch) : List Edge :=
  { source := s.start.id, target := s.routine.entry s.finish.id } :: s.routine.edges s.finish.id s.finish.id

/-- The loops that are tracked. -/
def headings (s : Sketch) : List Heading := s.routine.headings

theorem nodup_blocks (s : Sketch) : (s.blocks.map Block.id).Nodup := s.nodup

end Sketch

/-- The chart consists of the blocks and edges of the sketch, in any order and with any texts on the edges. -/
structure Graph.Draws (g : Graph) (s : Sketch) : Prop where
  blocks : g.blocks.Perm s.blocks
  edges : (g.edges.map Edge.bare).Perm s.edges

end Flowchart
