import Flowchart.Proofs.Script.Layout

/-!
# Charts built piece by piece

Blocks and edges are put at the end of a chart one after the other.  A new block gets the number of blocks so far as its
number.  On a chart that was built in this way from the beginning no block has that number yet; on a chart that came
with numbers of its own, one may have it.

* `Edit`, `Graph.edit`, `Graph.edits` — the steps of building, one and many.
* `Edit.added` — the blocks that are added along some steps, with their numbers.  `Graph.blocks_edits` says that they are
  put behind the blocks that are there, and `Edit.map_id_added` that they are numbered one after the other.
* **`Graph.edits_keep_blocks`** — when adding blocks leaves the others what they are: exactly if none of them has one of
  the numbers that are given out.
* **`Graph.addBlock_shares_number`** — a chart with a single block, whose number is given out once more.
-/

namespace Flowchart

/-- A step in building a chart. -/
inductive Edit where
  | addBlock (kind : BlockKind) (label : String)
  | connect (source target : BlockId)
  | connectBranch (source target : BlockId) (branch : Branch)
  deriving Repr, DecidableEq

namespace Edit

/-- A block is added. -/
def isAddition : Edit → Bool
  | addBlock _ _ => true
  | connect _ _ => false
  | connectBranch _ _ _ => false

/-- The blocks that are added, the first one with the given number. -/
def added : BlockId → List Edit → List Block
  | _, [] => []
  | id, addBlock kind label :: es => ⟨id, kind, label⟩ :: added (id + 1) es
  | id, connect _ _ :: es => added id es
  | id, connectBranch _ _ _ :: es => added id es

/-- **The added blocks are numbered one after the other.** -/
theorem map_id_added (id : BlockId) (es : List Edit) :
    (added id es).map Block.id = List.range' id (es.countP isAddition) := by
  induction es generalizing id with
  | nil => rfl
  | cons e es ih =>
    cases e with
    | addBlock kind label =>
      rw [added, List.map_cons, ih, List.countP_cons_of_pos rfl, List.range'_succ]
    | connect source target => rw [added, ih, List.countP_cons_of_neg Bool.false_ne_true]
    | connectBranch source target branch => rw [added, ih, List.countP_cons_of_neg Bool.false_ne_true]

end Edit

namespace Graph

/-- The chart after a step. -/
def edit (g : Graph) : Edit → Graph
  | .addBlock kind label => g.addBlock kind label
  | .connect source target => g.connect source target
  | .connectBranch source target branch => g.connectBranch source target branch

/-- The chart after some steps. -/
def edits (g : Graph) (es : List Edit) : Graph := es.foldl edit g

variable {g : Graph} {b : Block}

theorem edits_append (g : Graph) (es fs : List Edit) : g.edits (es ++ fs) = (g.edits es).edits fs := List.foldl_append

/-- **The blocks that are there keep their places**, and the added ones are put behind them. -/
theorem blocks_edits (g : Graph) (es : List Edit) : (g.edits es).blocks = g.blocks ++ Edit.added g.nextId es := by
  induction es generalizing g with
  | nil => exact (List.append_nil _).symm
  | cons e es ih =>
    show ((g.edit e).edits es).blocks = _
    rw [ih]
    cases e with
    | addBlock kind label =>
      have hnext : (g.addBlock kind label).nextId = g.nextId + 1 := List.length_append
      show (g.blocks ++ [⟨g.nextId, kind, label⟩]) ++ Edit.added (g.addBlock kind label).nextId es = _
      rw [hnext, List.append_assoc]
      rfl
    | connect source target => rfl
    | connectBranch source target branch => rfl

theorem mem_edits (es : List Edit) (hb : b ∈ g.blocks) : b ∈ (g.edits es).blocks := by
  rw [blocks_edits]
  exact List.mem_append_left _ hb

theorem ids_edits (g : Graph) (es : List Edit) :
    (g.edits es).blocks.map Block.id = g.blocks.map Block.id ++ List.range' g.nextId (es.countP Edit.isAddition) := by
  rw [blocks_edits, List.map_append, Edit.map_id_added]

/-- **No number comes twice** exactly if none of those that are given out was there. -/
theorem nodup_edits_iff (hnodup : (g.blocks.map Block.id).Nodup) (es : List Edit) :
    ((g.edits es).blocks.map Block.id).Nodup ↔
      ∀ b ∈ g.blocks, b.id < g.nextId ∨ g.nextId + es.countP Edit.isAddition ≤ b.id := by
  rw [ids_edits, List.nodup_append]
  constructor
  · rintro ⟨-, -, hapart⟩ b hb
    by_contra hbetween
    obtain ⟨hlow, hhigh⟩ := not_or.mp hbetween
    have hgiven : b.id ∈ List.range' g.nextId (es.countP Edit.isAddition) :=
      List.mem_range'_1.mpr ⟨Nat.not_lt.mp hlow, Nat.not_le.mp hhigh⟩
    exact hapart b.id (List.mem_map_of_mem hb) b.id hgiven rfl
  · intro hfree
    refine ⟨hnodup, List.nodup_range', ?_⟩
    rintro id hid other hother rfl
    obtain ⟨b, hb, rfl⟩ := List.mem_map.mp hid
    obtain ⟨hlow, hhigh⟩ := List.mem_range'_1.mp hother
    exact (hfree b hb).elim (Nat.not_lt.mpr hlow) (Nat.not_le.mpr hhigh)

/-- If in the end no number comes twice, none came twice before. -/
theorem nodup_of_nodup_edits {es : List Edit} (h : ((g.edits es).blocks.map Block.id).Nodup) :
    (g.blocks.map Block.id).Nodup := by
  rw [ids_edits] at h
  exact (List.nodup_append.mp h).1

/-- **Adding blocks and edges to a chart without repeated numbers.**  None of its blocks has one of the numbers that are
given out for the added ones, exactly if no number comes twice afterwards, every number is new when it is given out, and
every block that was there at some time, or had been added by then, is found by its number then and in the end. -/
theorem edits_keep_blocks (hnodup : (g.blocks.map Block.id).Nodup) (es : List Edit) :
    (∀ b ∈ g.blocks, b.id < g.nextId ∨ g.nextId + es.countP Edit.isAddition ≤ b.id) ↔
      ((g.edits es).blocks.map Block.id).Nodup ∧
      (∀ before kind label after, es = before ++ .addBlock kind label :: after →
        ∀ b ∈ (g.edits before).blocks, b.id ≠ (g.edits before).nextId) ∧
      ∀ before after, es = before ++ after → ∀ b ∈ (g.edits before).blocks,
        (g.edits before).block? b.id = some b ∧ (g.edits es).block? b.id = some b := by
  rw [← nodup_edits_iff hnodup]
  refine ⟨fun h => ⟨h, ?_, ?_⟩, fun h => h.1⟩
  · rintro before kind label after rfl b hb hid
    -- With the step that gives the number out, it would come twice.
    rw [edits_append] at h
    have hadded : (((g.edits before).addBlock kind label).blocks.map Block.id).Nodup := nodup_of_nodup_edits h
    have hids : ((g.edits before).addBlock kind label).blocks.map Block.id =
        (g.edits before).blocks.map Block.id ++ [(g.edits before).nextId] := List.map_append
    rw [hids, List.nodup_append] at hadded
    exact hadded.2.2 b.id (List.mem_map_of_mem hb) _ (List.mem_singleton_self _) hid
  · rintro before after rfl b hb
    rw [edits_append] at h ⊢
    exact ⟨block?_of_mem (nodup_of_nodup_edits h) hb, block?_of_mem h (mem_edits after hb)⟩

/-- A chart with numbers of its own, none of which is given out for the two blocks that are added. -/
theorem edits_keep_blocks_numbered :
    let g : Graph := { blocks := [⟨9, .start, ""⟩, ⟨0, .finish, ""⟩], edges := [⟨9, 0, none, none⟩] }
    let es : List Edit := [.addBlock .assignment "x = 1", .connect 9 2, .addBlock .merge "", .connect 2 3]
    (g.blocks.map Block.id).Nodup ∧
      (∀ b ∈ g.blocks, b.id < g.nextId ∨ g.nextId + es.countP Edit.isAddition ≤ b.id) ∧
      ((g.edits es).blocks.map Block.id).Nodup ∧
      ∀ before after, es = before ++ after → ∀ b ∈ (g.edits before).blocks,
        (g.edits before).block? b.id = some b ∧ (g.edits es).block? b.id = some b := by
  intro g es
  have hnodup : (g.blocks.map Block.id).Nodup := by decide
  have hfree : ∀ b ∈ g.blocks, b.id < g.nextId ∨ g.nextId + es.countP Edit.isAddition ≤ b.id := by decide
  obtain ⟨hdistinct, -, hfound⟩ := (edits_keep_blocks hnodup es).mp hfree
  exact ⟨hnodup, hfree, hdistinct, hfound⟩

/-- The only block of a chart has the number one, and so has the block that is added next; look-up finds that one. -/
theorem addBlock_shares_number :
    let g : Graph := { blocks := [⟨1, .start, ""⟩] }
    (g.blocks.map Block.id).Nodup ∧ g.block? 1 = some ⟨1, .start, ""⟩ ∧ g.nextId = 1 ∧
      ¬((g.addBlock .finish "").blocks.map Block.id).Nodup ∧
      (g.addBlock .finish "").block? 1 = some ⟨1, .finish, ""⟩ := by
  decide

end Graph

end Flowchart
