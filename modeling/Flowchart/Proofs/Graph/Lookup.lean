import Flowchart.Proofs.Validated

/-!
# Look-up by position and look-up by search

The block with a number is looked for at the position equal to the number, and only if another one stands there, or
none, among all blocks from the first one on.  The start block and the end block are found by their kinds, in the order
of the list.  The two ways agree as long as a number stands for one block; that it does is not among the checks of a
chart.

* `Graph.block?_of_place`, `Graph.block?_of_misplaced` — the two ways of look-up.
* `Graph.Overtaken` — the block that stands at the position equal to its number, while a different block with the number
  stands in front of it.  `Graph.block?_eq_find?_iff` says that this is the only way in which look-up can differ from a
  search, and `Graph.Overtaken.exists_ne` that it takes two blocks of one number.
* `Graph.exists_start_of_check`, `Graph.exists_finish_of_check` — what is found by kind on a chart that was checked.
* **`Graph.block?_agrees_with_search`** — look-up on charts that pass the checks.
* **`Graph.block?_start_shared`** — a chart that passes them, on which look-up finds the end block by the number of the
  start block.
-/

namespace Flowchart

namespace Graph

variable {g : Graph} {id : BlockId} {b : Block}

/-! ### The two ways of look-up -/

/-- A block at the position equal to its number is found there. -/
theorem block?_of_place (hplace : g.blocks[id]? = some b) (hid : b.id = id) : g.block? id = some b := by
  unfold block?
  rw [hplace]
  exact if_pos hid

/-- If the block at the position has another number, or no block is there, the blocks are searched. -/
theorem block?_of_misplaced (h : ∀ b, g.blocks[id]? = some b → b.id ≠ id) :
    g.block? id = g.blocks.find? (·.id == id) := by
  unfold block?
  split
  · next c hc => exact if_neg (h c hc)
  · rfl

/-- What a search finds if a block with the number stands at some position: that block, or one in front of it. -/
theorem find?_of_place {place : Nat} (hplace : g.blocks[place]? = some b) (hid : b.id = id) :
    g.blocks.find? (·.id == id) = ((g.blocks.take place).find? (·.id == id)).or (some b) := by
  obtain ⟨hlt, rfl⟩ := List.getElem?_eq_some_iff.mp hplace
  have hfound : (g.blocks[place] :: g.blocks.drop (place + 1)).find? (·.id == id) = some g.blocks[place] :=
    List.find?_cons_of_pos (by exact beq_iff_eq.mpr hid)
  rw [← hfound, ← List.find?_append, ← List.drop_eq_getElem_cons hlt, List.take_append_drop]

/-- The block at the position equal to a number has that number, but a different one that has it comes first. -/
def Overtaken (g : Graph) (id : BlockId) : Prop :=
  ∃ b first, g.blocks[id]? = some b ∧ b.id = id ∧ (g.blocks.take id).find? (·.id == id) = some first ∧ first ≠ b

/-- **Look-up finds the first block with a number, unless it is overtaken.** -/
theorem block?_eq_find?_iff : g.block? id = g.blocks.find? (·.id == id) ↔ ¬g.Overtaken id := by
  by_cases hplaced : ∃ b, g.blocks[id]? = some b ∧ b.id = id
  · obtain ⟨b, hplace, hid⟩ := hplaced
    rw [block?_of_place hplace hid, find?_of_place hplace hid]
    cases hfirst : (g.blocks.take id).find? (·.id == id) with
    | none =>
      refine iff_of_true rfl ?_
      rintro ⟨c, first, -, -, hsome, -⟩
      rw [hfirst] at hsome
      cases hsome
    | some first =>
      rw [Option.some_or, Option.some_inj]
      constructor
      · rintro rfl ⟨c, first, hplace', -, hsome, hne⟩
        rw [hplace] at hplace'
        rw [hfirst] at hsome
        cases hplace'
        cases hsome
        exact hne rfl
      · intro hnot
        by_contra hne
        exact hnot ⟨b, first, hplace, hid, hfirst, fun heq => hne heq.symm⟩
  · refine iff_of_true (block?_of_misplaced fun b hb hid => hplaced ⟨b, hb, hid⟩) ?_
    rintro ⟨b, first, hplace, hid, -⟩
    exact hplaced ⟨b, hplace, hid⟩

/-- Only where two blocks have one number is a block overtaken. -/
theorem Overtaken.exists_ne (h : g.Overtaken id) :
    ∃ b ∈ g.blocks, ∃ c ∈ g.blocks, b ≠ c ∧ b.id = id ∧ c.id = id := by
  obtain ⟨b, first, hplace, hid, hfirst, hne⟩ := h
  exact ⟨first, List.mem_of_mem_take (List.mem_of_find?_eq_some hfirst), b, List.mem_of_getElem? hplace, hne,
    by simpa using List.find?_some hfirst, hid⟩

/-! ### The start block and the end block -/

/-- A block whose number no other block has is found by its number. -/
theorem block?_of_unshared (hb : b ∈ g.blocks) (honly : ∀ c ∈ g.blocks, c.id = b.id → c = b) :
    g.block? b.id = some b :=
  (block?_eq_some_iff fun c hc d hd hcid hdid => (honly c hc hcid).trans (honly d hd hdid).symm).mpr ⟨hb, rfl⟩

theorem exists_start_of_check (h : g.checkStartAndFinish = .ok ()) :
    ∃ b ∈ g.blocks, b.kind = .start ∧ g.start? = some b.id := by
  obtain ⟨id, hstart⟩ := start_of_check h
  obtain ⟨b, hb, hkind, rfl⟩ := exists_of_firstOf? hstart
  exact ⟨b, hb, hkind, hstart⟩

theorem exists_finish_of_check (h : g.checkStartAndFinish = .ok ()) :
    ∃ b ∈ g.blocks, b.kind = .finish ∧ g.finish? = some b.id := by
  unfold checkStartAndFinish at h
  split at h
  · cases h
  · cases h
  · split at h
    · cases h
    · cases h
    · next b hfinish =>
      have hmem : b ∈ g.blocks.filter (·.kind == .finish) := by
        rw [hfinish]
        exact List.mem_singleton_self b
      obtain ⟨hb, hkind⟩ := List.mem_filter.mp hmem
      exact ⟨b, hb, beq_iff_eq.mp hkind, firstOf?_of_filter hfinish⟩

/-- **Look-up on a chart that passes the checks.**  It finds the first block with a number, or none if there is none,
except for a number whose block stands at the position equal to it behind a different block with the same number.  The
numbers of the start block and of the end block are those of a start block and of an end block, which are found by
them if no other block has their numbers. -/
theorem block?_agrees_with_search (h : g.validate = .ok ()) :
    (∀ id, g.block? id = g.blocks.find? (·.id == id) ↔ ¬g.Overtaken id) ∧
    (∀ id, g.Overtaken id → ∃ b ∈ g.blocks, ∃ c ∈ g.blocks, b ≠ c ∧ b.id = id ∧ c.id = id) ∧
    (∃ b ∈ g.blocks, b.kind = .start ∧ g.start? = some b.id ∧
      ((∀ c ∈ g.blocks, c.id = b.id → c = b) → g.block? b.id = some b)) ∧
    ∃ b ∈ g.blocks, b.kind = .finish ∧ g.finish? = some b.id ∧
      ((∀ c ∈ g.blocks, c.id = b.id → c = b) → g.block? b.id = some b) := by
  obtain ⟨-, hrest⟩ := ok_of_bind_ok h
  obtain ⟨hends, -⟩ := ok_of_bind_ok hrest
  obtain ⟨b, hb, hbkind, hstart⟩ := exists_start_of_check hends
  obtain ⟨c, hc, hckind, hfinish⟩ := exists_finish_of_check hends
  exact ⟨fun id => block?_eq_find?_iff, fun id => Overtaken.exists_ne,
    ⟨b, hb, hbkind, hstart, block?_of_unshared hb⟩, ⟨c, hc, hckind, hfinish, block?_of_unshared hc⟩⟩

end Graph

/-- A chart whose numbers have nothing to do with the positions: an assignment between the start and the end. -/
def scattered : Graph where
  blocks := [⟨2, .finish, ""⟩, ⟨7, .assignment, "x = 1"⟩, ⟨0, .start, ""⟩]
  edges := [⟨0, 7, none, none⟩, ⟨7, 2, none, none⟩]

/-- The block at position two has the number nought, and the end block, whose number is two, stands in front. -/
theorem Graph.block?_agrees_with_search_scattered : scattered.validate = .ok () ∧
    scattered.block? 2 = scattered.blocks.find? (·.id == 2) ∧
    ∃ b ∈ scattered.blocks, b.kind = .start ∧ scattered.start? = some b.id ∧
      ((∀ c ∈ scattered.blocks, c.id = b.id → c = b) → scattered.block? b.id = some b) := by
  have hvalid : scattered.validate = .ok () := by decide
  obtain ⟨hsearch, -, hstart, -⟩ := block?_agrees_with_search hvalid
  refine ⟨hvalid, (hsearch 2).mpr ?_, hstart⟩
  rintro ⟨b, first, hplace, hid, -⟩
  cases hplace
  cases hid

/-- A start block and an end block of one number, the start block in front. -/
def oneNumber : Graph where
  blocks := [⟨1, .start, ""⟩, ⟨1, .finish, ""⟩]
  edges := [⟨1, 1, none, none⟩]

/-- The chart passes the checks, and the number of its start block is that of the first block; but the end block stands
at the position equal to the number, and is found. -/
theorem Graph.block?_start_shared : oneNumber.validate = .ok () ∧ oneNumber.start? = some 1 ∧
    oneNumber.blocks.find? (·.id == 1) = some ⟨1, .start, ""⟩ ∧ oneNumber.block? 1 = some ⟨1, .finish, ""⟩ := by
  decide

end Flowchart
