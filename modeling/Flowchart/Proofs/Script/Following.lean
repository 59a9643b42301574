import Flowchart.Proofs.Script.DoLoops
import Flowchart.Proofs.Script.Emission

/-!
# Following the edges of a chart

The code for a chart is found by following its edges, with a set of covered blocks, a stack of walls and a
search for the place where code goes on behind a choice.  Here is what every piece of this does, one statement
for each.

* `Script.targets_mem`, **`Script.afterChoice?_mem`** — the search behind a choice does not leave the choice: the
  merge block that is found belongs to it, and the block after that merge block belongs to the script or is its
  exit.  It need not be the merge block of that choice.
* `Progress.Grows` — more blocks are covered and more loops opened, all of them among some blocks.
* `Recovery.Settled` — a block at which nothing is left to do: a wall, or one that was covered.
* `Recovery.Faces` — a block that is about to be covered; `Recovery.follow_plain`, `Recovery.follow_choice`,
  `Recovery.follow_loop` and `Recovery.follow_doLoop` say what is written for it.
-/

namespace Flowchart

/-! ### The search behind a choice -/

/-- A search stays within the numbers that it cannot leave. -/
theorem Graph.mem_of_mem_visits {g : Graph} {passes : BlockId → Bool} {within : List BlockId}
    (hclosed : ∀ id ∈ within, passes id = true → ∀ t ∈ g.targets id, t ∈ within) {fuel : Nat}
    {seen queue : List BlockId} (hqueue : ∀ id ∈ queue, id ∈ within) :
    ∀ id ∈ g.visits passes fuel seen queue, id ∈ within := by
  induction fuel generalizing seen queue with
  | zero =>
    intro id hid
    cases hid
  | succ fuel ih =>
    cases queue with
    | nil =>
      intro id hid
      cases hid
    | cons first rest =>
      have hfirst := hqueue first List.mem_cons_self
      have hrest : ∀ id ∈ rest, id ∈ within := fun id hid => hqueue id (List.mem_cons_of_mem _ hid)
      rw [Graph.visits]
      split
      · exact ih hrest
      · intro id hid
        rcases List.mem_cons.mp hid with rfl | hid
        · exact hfirst
        · refine ih ?_ id hid
          intro x hx
          rcases List.mem_append.mp hx with hx | hx
          · exact hrest x hx
          · split at hx
            · next hpass => exact hclosed first hfirst hpass x hx
            · cases hx

namespace Script

/-- The blocks of a script lead to blocks of the script and to its exit. -/
theorem targets_mem {g : Graph} {exit id target : BlockId} {s : Script} (h : Laid g exit s) (hid : id ∈ s.ids)
    (ht : target ∈ g.targets id) : target ∈ s.ids ∨ target = exit := by
  induction h with
  | done => cases hid
  | @simple exit kind node next _ hleads _ ih =>
    rw [ids_simple, List.mem_cons] at hid ⊢
    rcases hid with rfl | hid
    · rw [hleads.targets target ht]
      rcases next.entry_mem exit with he | he <;> simp [he]
    · rcases ih hid with h | h <;> simp [h]
  | @choice exit test join yes no next _ _ hforks hleads _ _ _ ihy ihn ih =>
    simp only [ids_choice, List.mem_cons, List.mem_append] at hid ⊢
    rcases hid with rfl | rfl | (hid | hid) | hid
    · rcases hforks.targets target ht with rfl | rfl
      · rcases yes.entry_mem join.id with he | he <;> simp [he]
      · rcases no.entry_mem join.id with he | he <;> simp [he]
    · rw [hleads.targets target ht]
      rcases next.entry_mem exit with he | he <;> simp [he]
    · rcases ihy hid with h | h <;> simp [h]
    · rcases ihn hid with h | h <;> simp [h]
    · rcases ih hid with h | h <;> simp [h]
  | @loop exit kind head body next _ hforks _ _ ihb ih =>
    simp only [ids_loop, List.mem_cons, List.mem_append] at hid ⊢
    rcases hid with rfl | hid | hid
    · rcases hforks.targets target ht with rfl | rfl
      · rcases body.entry_mem head.id with he | he <;> simp [he]
      · rcases next.entry_mem exit with he | he <;> simp [he]
    · rcases ihb hid with h | h <;> simp [h]
    · rcases ih hid with h | h <;> simp [h]
  | @doLoop exit entry test body next _ _ hleads hforks _ _ ihb ih =>
    simp only [ids_doLoop, List.mem_cons, List.mem_append] at hid ⊢
    rcases hid with rfl | rfl | hid | hid
    · rw [hleads.targets target ht]
      rcases body.entry_mem test.id with he | he <;> simp [he]
    · rcases hforks.targets target ht with rfl | rfl
      · exact .inl (.inl rfl)
      · rcases next.entry_mem exit with he | he <;> simp [he]
    · rcases ihb hid with h | h <;> simp [h]
    · rcases ih hid with h | h <;> simp [h]

/-- **Behind a choice**, code goes on at a block of the choice, at a block behind it, or at the exit. -/
theorem afterChoice?_mem {r : Recovery} {exit : BlockId} {test join : Node} {yes no next : Script}
    (h : Laid r.graph exit (choice test join yes no next)) (walls : List BlockId) (target : BlockId)
    (ht : r.afterChoice? walls test.id = some target) :
    target ∈ (choice test join yes no next).ids ∨ target = exit := by
  unfold Recovery.afterChoice? Graph.nearestMerge? at ht
  obtain ⟨merge, hmerge, hsuccessor⟩ := Option.bind_eq_some_iff.mp ht
  have hvisited := List.mem_of_find?_eq_some hmerge
  have hwithin : merge ∈ join.id :: (yes.ids ++ no.ids) := by
    cases h with
    | choice _ hjoin hforks _ hyes hno _ =>
      refine Graph.mem_of_mem_visits ?_ ?_ merge hvisited
      · -- The search goes on from the branches, and stops at the merge block in which they meet.
        intro id hid hpass t ht
        rcases List.mem_cons.mp hid with rfl | hid
        · unfold Graph.passesForMerge at hpass
          rw [hjoin] at hpass
          cases hpass
        · rcases List.mem_append.mp hid with hid | hid
          · rcases targets_mem hyes hid ht with h | h <;> simp [h]
          · rcases targets_mem hno hid ht with h | h <;> simp [h]
      · intro id hid
        rcases hforks.targets id hid with rfl | rfl
        · rcases yes.entry_mem join.id with he | he <;> simp [he]
        · rcases no.entry_mem join.id with he | he <;> simp [he]
  have hids : merge ∈ (choice test join yes no next).ids := by
    rw [ids_choice]
    exact List.mem_cons_of_mem _ (List.cons_subset_cons _ (List.subset_append_left _ _) hwithin)
  exact targets_mem h hids (Graph.mem_targets_of_successor hsuccessor)

end Script

/-! ### Progress -/

namespace Progress

/-- One more block is covered. -/
def cover (id : BlockId) (p : Progress) : Progress := { p with visited := id :: p.visited }

/-- One more loop is opened. -/
def openLoop (id : BlockId) (p : Progress) : Progress := { p with opened := id :: p.opened }

/-- Progress from one point to another, within some blocks. -/
structure Grows (within : List BlockId) (p q : Progress) : Prop where
  visited_mono : p.visited ⊆ q.visited
  opened_mono : p.opened ⊆ q.opened
  visited_new : ∀ id ∈ q.visited, id ∈ p.visited ∨ id ∈ within
  opened_new : ∀ id ∈ q.opened, id ∈ p.opened ∨ id ∈ within

variable {within within' : List BlockId} {p q p' : Progress}

theorem Grows.refl (within : List BlockId) (p : Progress) : p.Grows within p :=
  ⟨fun _ h => h, fun _ h => h, fun _ h => .inl h, fun _ h => .inl h⟩

theorem Grows.trans (h : p.Grows within q) (h' : q.Grows within p') : p.Grows within p' where
  visited_mono _ hid := h'.visited_mono (h.visited_mono hid)
  opened_mono _ hid := h'.opened_mono (h.opened_mono hid)
  visited_new id hid := (h'.visited_new id hid).elim (h.visited_new id) .inr
  opened_new id hid := (h'.opened_new id hid).elim (h.opened_new id) .inr

theorem Grows.mono (h : p.Grows within q) (hw : within ⊆ within') : p.Grows within' q where
  visited_mono := h.visited_mono
  opened_mono := h.opened_mono
  visited_new id hid := (h.visited_new id hid).imp_right fun hmem => hw hmem
  opened_new id hid := (h.opened_new id hid).imp_right fun hmem => hw hmem

theorem grows_cover {id : BlockId} (hid : id ∈ within) (p : Progress) : p.Grows within (p.cover id) where
  visited_mono _ hx := List.mem_cons_of_mem _ hx
  opened_mono _ hx := hx
  visited_new _ hx := (List.mem_cons.mp hx).elim (fun h => .inr (h ▸ hid)) .inl
  opened_new _ hx := .inl hx

theorem grows_openLoop {id : BlockId} (hid : id ∈ within) (p : Progress) : p.Grows within (p.openLoop id) where
  visited_mono _ hx := hx
  opened_mono _ hx := List.mem_cons_of_mem _ hx
  visited_new _ hx := .inl hx
  opened_new _ hx := (List.mem_cons.mp hx).elim (fun h => .inr (h ▸ hid)) .inl

/-- None of the numbers is a wall, was covered, or had its loop opened. -/
def Fresh (p : Progress) (walls ids : List BlockId) : Prop :=
  ∀ id ∈ ids, id ∉ walls ∧ id ∉ p.visited ∧ id ∉ p.opened

variable {walls ids ids' : List BlockId}

theorem Fresh.sub (h : p.Fresh walls ids) (hsub : ids' ⊆ ids) : p.Fresh walls ids' :=
  fun id hid => h id (hsub hid)

/-- Progress elsewhere leaves numbers fresh. -/
theorem Fresh.of_grows (h : p.Fresh walls ids) (hg : p.Grows within q) (hids : ids.Disjoint within) :
    q.Fresh walls ids := by
  intro id hid
  obtain ⟨hwall, hvisited, hopened⟩ := h id hid
  refine ⟨hwall, fun hmem => ?_, fun hmem => ?_⟩
  · exact (hg.visited_new id hmem).elim hvisited (hids hid)
  · exact (hg.opened_new id hmem).elim hopened (hids hid)

/-- A wall elsewhere leaves numbers fresh. -/
theorem Fresh.of_wall {wall : BlockId} (h : p.Fresh walls ids) (hwall : wall ∉ ids) :
    p.Fresh (wall :: walls) ids := by
  intro id hid
  obtain ⟨hother, hrest⟩ := h id hid
  refine ⟨fun hmem => ?_, hrest⟩
  rcases List.mem_cons.mp hmem with rfl | hmem
  · exact hwall hid
  · exact hother hmem

end Progress

namespace Recovery

variable {r : Recovery} {walls : List BlockId} {p q : Progress} {id : BlockId}

/-- A loop that was opened is not opened again. -/
theorem testToOpen?_eq_none (h : r.testAt? id = none ∨ id ∈ p.opened) : r.testToOpen? id p = none := by
  unfold testToOpen?
  rcases h with h | h
  · unfold testAt? at h
    rw [h]
    split <;> rfl
  · rw [if_pos (by simpa using h)]

theorem testToOpen?_eq_some {test : BlockId} (h : r.testAt? id = some test) (hid : id ∉ p.opened) :
    r.testToOpen? id p = some test := by
  unfold testToOpen?
  unfold testAt? at h
  rw [if_neg (by simpa using hid), h]

/-- At a settled block nothing is left to do: it is a wall, or it was covered and begins no loop that is still to
be opened. -/
def Settled (r : Recovery) (walls : List BlockId) (p : Progress) (id : BlockId) : Prop :=
  id ∈ walls ∨ (id ∈ p.visited ∧ (r.testAt? id = none ∨ id ∈ p.opened))

theorem Settled.mono {within : List BlockId} (h : r.Settled walls p id) (hg : p.Grows within q) :
    r.Settled walls q id := by
  rcases h with h | ⟨hvisited, hopened⟩
  · exact .inl h
  · exact .inr ⟨hg.visited_mono hvisited, hopened.imp_right fun hmem => hg.opened_mono hmem⟩

/-- Outside of a loop, its own wall is gone. -/
theorem Settled.of_cons {wall : BlockId} (h : r.Settled (wall :: walls) p id) (hne : id ≠ wall) :
    r.Settled walls p id := by
  rcases h with h | h
  · exact .inl ((List.mem_cons.mp h).resolve_left hne)
  · exact .inr h

/-- **A region ends at a settled block.** -/
theorem follow_of_settled (h : r.Settled walls p id) (n : Nat) :
    r.follow (n + 1) walls (some id) p = some (.done, p) := by
  rw [follow]
  by_cases hwall : walls.contains id = true
  · rw [if_pos hwall]
  rw [if_neg hwall]
  obtain ⟨hvisited, hopened⟩ := h.resolve_left (by simpa using hwall)
  rw [testToOpen?_eq_none hopened]
  dsimp only
  rw [if_pos (by simpa using hvisited)]

/-! ### Single blocks -/

/-- A block that is about to be covered. -/
structure Faces (r : Recovery) (walls : List BlockId) (p : Progress) (b : Block) (i : Instruction) : Prop where
  wall : b.id ∉ walls
  loop : r.testAt? b.id = none ∨ b.id ∈ p.opened
  unvisited : b.id ∉ p.visited
  found : r.graph.block? b.id = some b
  instruction : b.instruction = .ok i

variable {b : Block} {i : Instruction} {n : Nat}

/-- A block without branches is written, and code goes on behind it. -/
theorem follow_plain {next : Code} (h : r.Faces walls p b i) (hbranch : i.kind.isBranching = false)
    (hfinish : i.kind ≠ .finish)
    (hnext : r.follow n walls (r.graph.successor? b.id) (p.cover b.id) = some (next, q)) :
    r.follow (n + 1) walls (some b.id) p = some (.plain b.id (r.statements i) next, q) := by
  rw [follow, if_neg (by simpa using h.wall), testToOpen?_eq_none h.loop]
  dsimp only
  rw [if_neg (by simpa using h.unvisited), h.found]
  dsimp only
  rw [h.instruction]
  cases i with
  | finish => exact absurd rfl hfinish
  | choose | whileLoop | forLoop | doWhile => cases hbranch
  | start | merge | assign | input | output | call =>
    unfold Progress.cover at hnext
    dsimp only
    rw [hnext]
    rfl

/-- Code ends at an end block. -/
theorem follow_finish (h : r.Faces walls p b i) (hkind : i.kind = .finish) :
    r.follow (n + 1) walls (some b.id) p = some (.plain b.id [] .done, p.cover b.id) := by
  rw [follow, if_neg (by simpa using h.wall), testToOpen?_eq_none h.loop]
  dsimp only
  rw [if_neg (by simpa using h.unvisited), h.found]
  dsimp only
  rw [h.instruction]
  cases i with
  | finish => rfl
  | _ => cases hkind

/-- A choice holds what follows along its edges; behind it, code goes on where the search says. -/
theorem follow_choice {p₁ p₂ : Progress} {no : BlockId} {body other next : Code} (h : r.Faces walls p b i)
    (hkind : i.kind = .conditional)
    (hbody : r.follow n walls (r.graph.branchTarget? b.id .whenTrue) (p.cover b.id) = some (body, p₁))
    (hno : r.graph.branchTarget? b.id .whenFalse = some no)
    (hother : r.follow n walls (some no) p₁ = some (other, p₂))
    (hnext : r.follow n walls (r.afterChoice? walls b.id) p₂ = some (next, q)) :
    r.follow (n + 1) walls (some b.id) p = some (.ifElse b.id (Code.condition i.condition) body other next, q) := by
  rw [follow, if_neg (by simpa using h.wall), testToOpen?_eq_none h.loop]
  dsimp only
  rw [if_neg (by simpa using h.unvisited), h.found]
  dsimp only
  rw [h.instruction]
  cases i with
  | choose condition =>
    unfold Progress.cover at hbody
    dsimp only
    rw [hbody, hno]
    show (r.follow n walls (some no) p₁ >>= fun x =>
      r.follow n walls (r.afterChoice? walls b.id) x.2 >>= fun y =>
        pure (Code.ifElse b.id (Code.condition condition) body x.1 y.1, y.2)) = _
    rw [hother]
    show (r.follow n walls (r.afterChoice? walls b.id) p₂ >>= fun y =>
        pure (Code.ifElse b.id (Code.condition condition) body other y.1, y.2)) = _
    rw [hnext]
    rfl
  | _ => cases hkind

/-- A loop holds what follows along its true edge, with its head as a wall. -/
theorem follow_loop {p₁ : Progress} {body next : Code} (h : r.Faces walls p b i)
    (hkind : i.kind = .loop ∨ i.kind = .forLoop)
    (hbody : r.follow n (b.id :: walls) (r.graph.branchTarget? b.id .whenTrue) (p.cover b.id) = some (body, p₁))
    (hnext : r.follow n walls (r.graph.branchTarget? b.id .whenFalse) p₁ = some (next, q)) :
    r.follow (n + 1) walls (some b.id) p = some (.loop b.id i.header body next, q) := by
  rw [follow, if_neg (by simpa using h.wall), testToOpen?_eq_none h.loop]
  dsimp only
  rw [if_neg (by simpa using h.unvisited), h.found]
  dsimp only
  rw [h.instruction]
  cases i with
  | whileLoop condition =>
    unfold Progress.cover at hbody
    dsimp only
    rw [hbody]
    show (r.follow n walls (r.graph.branchTarget? b.id .whenFalse) p₁ >>= fun x =>
      pure (Code.loop b.id (whileHeader condition) body x.1, x.2)) = _
    rw [hnext]
    rfl
  | forLoop init condition increment =>
    unfold Progress.cover at hbody
    dsimp only
    rw [hbody]
    show (r.follow n walls (r.graph.branchTarget? b.id .whenFalse) p₁ >>= fun x =>
      pure (Code.loop b.id (forHeader init condition increment) body x.1, x.2)) = _
    rw [hnext]
    rfl
  | _ => rcases hkind with hkind | hkind <;> cases hkind

/-- A loop that tests after its body is opened where the body begins, with its test as a wall. -/
theorem follow_doLoop {p₁ : Progress} {test : BlockId} {body next : Code} (hwall : id ∉ walls)
    (htest : r.testAt? id = some test) (hopened : id ∉ p.opened)
    (hbody : r.follow n (test :: walls) (some id) (p.openLoop id) = some (body, p₁))
    (hnext : r.follow n walls (r.graph.branchTarget? test .whenFalse) (p₁.cover test) = some (next, q)) :
    r.follow (n + 1) walls (some id) p = some (.doLoop id test (r.testCondition test) body next, q) := by
  unfold Progress.openLoop at hbody
  rw [follow, if_neg (by simpa using hwall), testToOpen?_eq_some htest hopened]
  dsimp only
  rw [hbody]
  show (r.follow n walls (r.graph.branchTarget? test .whenFalse) (p₁.cover test) >>= fun x =>
    pure (Code.doLoop id test (r.testCondition test) body x.1, x.2)) = _
  rw [hnext]
  rfl

end Recovery

end Flowchart
