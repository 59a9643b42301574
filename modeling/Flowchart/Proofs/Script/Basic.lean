import Flowchart.Graph.Basic
import Mathlib.Data.List.Nodup
import Mathlib.Data.List.Perm.Basic

/-!
# Structured charts

Edges may lead anywhere, but most flowcharts are drawn with a structure in mind: statements one after the
other, choices whose branches meet again, loops with one entry and one exit.  A script is such a structure,
and it says which blocks and which edges it calls for.

* `Script` — the tree.  Every node carries the number and the label of its block, both of them arbitrary.
* `Script.entry`, `Script.blocks`, `Script.edges` — how a script is drawn in front of an exit: the number of the
  block at which it is entered, its blocks, and its edges.
* `Script.append` — one script after another.
* `DistinctChoice`, `DistinctLoop`, `DistinctDoLoop` — what it means for the parts of a script that all of its
  blocks have numbers of their own.
-/

namespace Flowchart

/-! ### Scripts -/

/-- The number and the label of a block. -/
structure Node where
  id : BlockId
  label : String
  deriving Repr, DecidableEq

/-- The block for a node. -/
def Node.block (kind : BlockKind) (n : Node) : Block := ⟨n.id, kind, n.label⟩

@[simp] theorem Node.block_id (kind : BlockKind) (n : Node) : (n.block kind).id = n.id := rfl

@[simp] theorem Node.block_kind (kind : BlockKind) (n : Node) : (n.block kind).kind = kind := rfl

/-- The statements without branches. -/
inductive Simple where
  | assignment
  | input
  | output
  | functionCall
  deriving Repr, DecidableEq

/-- The kind of block for a statement without branches. -/
def Simple.kind : Simple → BlockKind
  | assignment => .assignment
  | input => .input
  | output => .output
  | functionCall => .functionCall

/-- The loops that test before their bodies. -/
inductive Looping where
  | testing
  | counting
  deriving Repr, DecidableEq

/-- The kind of block at the head of a loop. -/
def Looping.kind : Looping → BlockKind
  | testing => .loop
  | counting => .forLoop

/-- Statements, one after the other. -/
inductive Script where
  | done
  | simple (kind : Simple) (node : Node) (next : Script)
  /-- A choice, whose branches meet in a merge block of its own. -/
  | choice (test join : Node) (yes no next : Script)
  | loop (kind : Looping) (head : Node) (body next : Script)
  /-- A loop that tests after its body, which begins with a merge block. -/
  | doLoop (entry test : Node) (body next : Script)
  deriving Repr, DecidableEq

namespace Script

/-- The number of the first block; an empty script is left where it is entered. -/
def entry (exit : BlockId) : Script → BlockId
  | done => exit
  | simple _ node _ => node.id
  | choice test _ _ _ _ => test.id
  | loop _ head _ _ => head.id
  | doLoop entry _ _ _ => entry.id

/-- The blocks of a script. -/
def blocks : Script → List Block
  | done => []
  | simple kind node next => node.block kind.kind :: next.blocks
  | choice test join yes no next =>
    test.block .conditional :: join.block .merge :: (yes.blocks ++ no.blocks ++ next.blocks)
  | loop kind head body next => head.block kind.kind :: (body.blocks ++ next.blocks)
  | doLoop entry test body next =>
    entry.block .merge :: test.block .doWhile :: (body.blocks ++ next.blocks)

/-- The numbers of the blocks of a script. -/
def ids (s : Script) : List BlockId := s.blocks.map Block.id

/-- The edges of a script that is left for the block `exit`. -/
def edges (exit : BlockId) : Script → List Edge
  | done => []
  | simple _ node next => { source := node.id, target := next.entry exit } :: next.edges exit
  | choice test join yes no next =>
    { source := test.id, target := yes.entry join.id, branch := some .whenTrue } ::
      { source := test.id, target := no.entry join.id, branch := some .whenFalse } ::
      { source := join.id, target := next.entry exit } ::
      (yes.edges join.id ++ no.edges join.id ++ next.edges exit)
  | loop _ head body next =>
    { source := head.id, target := body.entry head.id, branch := some .whenTrue } ::
      { source := head.id, target := next.entry exit, branch := some .whenFalse } ::
      (body.edges head.id ++ next.edges exit)
  | doLoop entry test body next =>
    { source := entry.id, target := body.entry test.id } ::
      { source := test.id, target := entry.id, branch := some .whenTrue } ::
      { source := test.id, target := next.entry exit, branch := some .whenFalse } ::
      (body.edges test.id ++ next.edges exit)

/-- One script after another. -/
def append : Script → Script → Script
  | done, t => t
  | simple kind node next, t => simple kind node (next.append t)
  | choice test join yes no next, t => choice test join yes no (next.append t)
  | loop kind head body next, t => loop kind head body (next.append t)
  | doLoop entry test body next, t => doLoop entry test body (next.append t)

/-! ### Numbers -/

@[simp] theorem ids_done : ids done = [] := rfl

@[simp] theorem ids_simple (kind : Simple) (node : Node) (next : Script) :
    (simple kind node next).ids = node.id :: next.ids := rfl

@[simp] theorem ids_choice (test join : Node) (yes no next : Script) :
    (choice test join yes no next).ids = test.id :: join.id :: (yes.ids ++ no.ids ++ next.ids) := by
  simp [ids, blocks]

@[simp] theorem ids_loop (kind : Looping) (head : Node) (body next : Script) :
    (loop kind head body next).ids = head.id :: (body.ids ++ next.ids) := by
  simp [ids, blocks]

@[simp] theorem ids_doLoop (entry test : Node) (body next : Script) :
    (doLoop entry test body next).ids = entry.id :: test.id :: (body.ids ++ next.ids) := by
  simp [ids, blocks]

/-! ### Parts -/

/-- What holds of all blocks of a statement and what follows. -/
theorem forall_blocks_simple {P : Block → Prop} {kind : Simple} {node : Node} {next : Script} :
    (∀ b ∈ (simple kind node next).blocks, P b) ↔ P (node.block kind.kind) ∧ ∀ b ∈ next.blocks, P b := by
  simp [blocks]

theorem forall_blocks_choice {P : Block → Prop} {test join : Node} {yes no next : Script} :
    (∀ b ∈ (choice test join yes no next).blocks, P b) ↔
      (P (test.block .conditional) ∧ P (join.block .merge)) ∧
        (∀ b ∈ yes.blocks, P b) ∧ (∀ b ∈ no.blocks, P b) ∧ ∀ b ∈ next.blocks, P b := by
  simp only [blocks, List.mem_cons, List.mem_append, or_imp, forall_and, forall_eq, and_assoc]

theorem forall_blocks_loop {P : Block → Prop} {kind : Looping} {head : Node} {body next : Script} :
    (∀ b ∈ (loop kind head body next).blocks, P b) ↔
      P (head.block kind.kind) ∧ (∀ b ∈ body.blocks, P b) ∧ ∀ b ∈ next.blocks, P b := by
  simp only [blocks, List.mem_cons, List.mem_append, or_imp, forall_and, forall_eq]

theorem forall_blocks_doLoop {P : Block → Prop} {entry test : Node} {body next : Script} :
    (∀ b ∈ (doLoop entry test body next).blocks, P b) ↔
      (P (entry.block .merge) ∧ P (test.block .doWhile)) ∧ (∀ b ∈ body.blocks, P b) ∧ ∀ b ∈ next.blocks, P b := by
  simp only [blocks, List.mem_cons, List.mem_append, or_imp, forall_and, forall_eq, and_assoc]

/-- The blocks of a choice, and what follows it, have numbers of their own. -/
structure DistinctChoice (test join : Node) (yes no next : Script) : Prop where
  test_join : test.id ≠ join.id
  test_yes : test.id ∉ yes.ids
  test_no : test.id ∉ no.ids
  test_next : test.id ∉ next.ids
  join_yes : join.id ∉ yes.ids
  join_no : join.id ∉ no.ids
  join_next : join.id ∉ next.ids
  yes_no : yes.ids.Disjoint no.ids
  yes_next : yes.ids.Disjoint next.ids
  no_next : no.ids.Disjoint next.ids
  nodup_yes : yes.ids.Nodup
  nodup_no : no.ids.Nodup
  nodup_next : next.ids.Nodup

theorem distinctChoice_of_nodup {test join : Node} {yes no next : Script}
    (h : (choice test join yes no next).ids.Nodup) : DistinctChoice test join yes no next := by
  simp only [ids_choice, List.nodup_cons, List.nodup_append', List.mem_cons, List.mem_append, not_or,
    List.disjoint_append_left] at h
  obtain ⟨⟨htestJoin, ⟨htestYes, htestNo⟩, htestNext⟩, ⟨⟨hjoinYes, hjoinNo⟩, hjoinNext⟩, ⟨hyes, hno, hyesNo⟩,
    hnext, hyesNext, hnoNext⟩ := h
  exact ⟨htestJoin, htestYes, htestNo, htestNext, hjoinYes, hjoinNo, hjoinNext, hyesNo, hyesNext, hnoNext, hyes,
    hno, hnext⟩

/-- The blocks of a loop that tests before its body, and what follows it, have numbers of their own. -/
structure DistinctLoop (head : Node) (body next : Script) : Prop where
  head_body : head.id ∉ body.ids
  head_next : head.id ∉ next.ids
  body_next : body.ids.Disjoint next.ids
  nodup_body : body.ids.Nodup
  nodup_next : next.ids.Nodup

theorem distinctLoop_of_nodup {kind : Looping} {head : Node} {body next : Script}
    (h : (loop kind head body next).ids.Nodup) : DistinctLoop head body next := by
  simp only [ids_loop, List.nodup_cons, List.nodup_append', List.mem_append, not_or] at h
  obtain ⟨⟨hheadBody, hheadNext⟩, hbody, hnext, hbodyNext⟩ := h
  exact ⟨hheadBody, hheadNext, hbodyNext, hbody, hnext⟩

/-- The blocks of a loop that tests after its body, and what follows it, have numbers of their own. -/
structure DistinctDoLoop (entry test : Node) (body next : Script) : Prop where
  entry_test : entry.id ≠ test.id
  entry_body : entry.id ∉ body.ids
  entry_next : entry.id ∉ next.ids
  test_body : test.id ∉ body.ids
  test_next : test.id ∉ next.ids
  body_next : body.ids.Disjoint next.ids
  nodup_body : body.ids.Nodup
  nodup_next : next.ids.Nodup

theorem distinctDoLoop_of_nodup {entry test : Node} {body next : Script}
    (h : (doLoop entry test body next).ids.Nodup) : DistinctDoLoop entry test body next := by
  simp only [ids_doLoop, List.nodup_cons, List.nodup_append', List.mem_cons, List.mem_append, not_or] at h
  obtain ⟨⟨hentryTest, hentryBody, hentryNext⟩, ⟨htestBody, htestNext⟩, hbody, hnext, hbodyNext⟩ := h
  exact ⟨hentryTest, hentryBody, hentryNext, htestBody, htestNext, hbodyNext, hbody, hnext⟩

/-! ### Entry, edges and kinds -/

/-- A script is entered at a block of its own, unless it is empty. -/
theorem entry_mem (exit : BlockId) (s : Script) : s.entry exit = exit ∨ s.entry exit ∈ s.ids := by
  cases s with
  | done => exact .inl rfl
  | simple => exact .inr (by simp [entry])
  | choice => exact .inr (by simp [entry])
  | loop => exact .inr (by simp [entry])
  | doLoop => exact .inr (by simp [entry])

/-- The edges of a script begin at its blocks. -/
theorem source_mem {e : Edge} {exit : BlockId} {s : Script} (h : e ∈ s.edges exit) : e.source ∈ s.ids := by
  induction s generalizing exit with
  | done => cases h
  | simple kind node next ih =>
    simp only [edges, List.mem_cons] at h
    rw [ids_simple, List.mem_cons]
    rcases h with rfl | h
    · exact .inl rfl
    · exact .inr (ih h)
  | choice test join yes no next ihy ihn ih =>
    simp only [edges, List.mem_cons, List.mem_append] at h
    simp only [ids_choice, List.mem_cons, List.mem_append]
    rcases h with rfl | rfl | rfl | (h | h) | h
    · exact .inl rfl
    · exact .inl rfl
    · exact .inr (.inl rfl)
    · exact .inr (.inr (.inl (.inl (ihy h))))
    · exact .inr (.inr (.inl (.inr (ihn h))))
    · exact .inr (.inr (.inr (ih h)))
  | loop kind head body next ihb ih =>
    simp only [edges, List.mem_cons, List.mem_append] at h
    simp only [ids_loop, List.mem_cons, List.mem_append]
    rcases h with rfl | rfl | h | h
    · exact .inl rfl
    · exact .inl rfl
    · exact .inr (.inl (ihb h))
    · exact .inr (.inr (ih h))
  | doLoop entry test body next ihb ih =>
    simp only [edges, List.mem_cons, List.mem_append] at h
    simp only [ids_doLoop, List.mem_cons, List.mem_append]
    rcases h with rfl | rfl | rfl | h | h
    · exact .inl rfl
    · exact .inr (.inl rfl)
    · exact .inr (.inl rfl)
    · exact .inr (.inr (.inl (ihb h)))
    · exact .inr (.inr (.inr (ih h)))

/-- No block of a script is a start block or an end block. -/
theorem kind_of_mem {b : Block} {s : Script} (h : b ∈ s.blocks) : b.kind ≠ .start ∧ b.kind ≠ .finish := by
  induction s with
  | done => cases h
  | simple kind node next ih =>
    simp only [blocks, List.mem_cons] at h
    rcases h with rfl | h
    · cases kind <;> exact ⟨BlockKind.noConfusion, BlockKind.noConfusion⟩
    · exact ih h
  | choice test join yes no next ihy ihn ih =>
    simp only [blocks, List.mem_cons, List.mem_append] at h
    rcases h with rfl | rfl | (h | h) | h
    · exact ⟨BlockKind.noConfusion, BlockKind.noConfusion⟩
    · exact ⟨BlockKind.noConfusion, BlockKind.noConfusion⟩
    · exact ihy h
    · exact ihn h
    · exact ih h
  | loop kind head body next ihb ih =>
    simp only [blocks, List.mem_cons, List.mem_append] at h
    rcases h with rfl | h | h
    · cases kind <;> exact ⟨BlockKind.noConfusion, BlockKind.noConfusion⟩
    · exact ihb h
    · exact ih h
  | doLoop entry test body next ihb ih =>
    simp only [blocks, List.mem_cons, List.mem_append] at h
    rcases h with rfl | rfl | h | h
    · exact ⟨BlockKind.noConfusion, BlockKind.noConfusion⟩
    · exact ⟨BlockKind.noConfusion, BlockKind.noConfusion⟩
    · exact ihb h
    · exact ih h

end Script

end Flowchart
