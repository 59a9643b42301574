import Flowchart.Proofs.Code.Searches
import Flowchart.Proofs.Script.Layout

/-!
# The nearest merge block

Behind a choice, code goes on at the merge block that is the fewest edges away.  A breadth-first search finds it: the
numbers that wait in its queue are those that are some edges away, and behind them those that are one edge more away.
A number may wait twice, edges may lead in circles and to blocks that do not exist, and the search does not go on from
merge blocks, end blocks and the walls it was given.

* `Graph.Reached`, `Graph.Attained` — what paths lead to, with the number of their edges: any number, and a goal.
* `Graph.Finds` — a search for a goal from its beginning to the round that answers, with the number of its rounds.
  `Graph.Searched.finds` says that it comes to its end wherever the search for everything does, and
  `Graph.Finds.rounds_le` that a round is for a number in the queue or an edge that was not used.
* `Graph.Levels` — what a search knows between two rounds, and what every round keeps.  **`Graph.Finds.nearest`** says
  that the answer is therefore a goal to which no path is shorter, or that no path leads to a goal.
* `Graph.LeadsToMerge` — the paths to merge blocks, told by the blocks of the chart.
* **`Graph.nearestMerge?_nearest`** — the search for a merge block ends, and finds the nearest.
-/

namespace Flowchart

namespace Graph

variable {g : Graph}

/-! ### Paths -/

/-- A number that is come to from another along a number of edges, one or more, with nothing in between but what paths
may go through. -/
inductive Reached (g : Graph) (through : BlockId → Prop) (start : BlockId) : Nat → BlockId → Prop where
  | edge {id : BlockId} (h : id ∈ g.targets start) : Reached g through start 1 id
  | onward {edges : Nat} {id target : BlockId} (h : Reached g through start edges id) (hthrough : through id)
      (ht : target ∈ g.targets id) : Reached g through start (edges + 1) target

theorem Reached.pos {through : BlockId → Prop} {start id : BlockId} {edges : Nat}
    (h : g.Reached through start edges id) : 0 < edges := by
  cases h with
  | edge => exact Nat.one_pos
  | onward => exact Nat.succ_pos _

/-- A goal that is come to along a number of edges from somewhere else. -/
structure Attained (g : Graph) (through isGoal : BlockId → Prop) (start : BlockId) (edges : Nat) (id : BlockId) :
    Prop where
  goal : isGoal id
  other : id ≠ start
  reached : g.Reached through start edges id

/-- What a search for a goal has to answer: a goal to which a path leads, and no shorter path leads to a goal; or none,
because no path leads to a goal. -/
def Nearest (g : Graph) (through isGoal : BlockId → Prop) (start : BlockId) : Option BlockId → Prop
  | some id => ∃ edges, g.Attained through isGoal start edges id ∧
      ∀ more other, g.Attained through isGoal start more other → edges ≤ more
  | none => ∀ edges id, ¬g.Attained through isGoal start edges id

/-! ### The search for a goal -/

section Search

variable {passes goal : BlockId → Bool} {start id : BlockId} {seen queue front back : List BlockId} {edges : Nat}

/-- A search for a goal that comes to its end: how many rounds it takes, what was seen, the queue, and the answer.
Every round takes a number from the queue.  One that was seen before is passed over; a goal is the answer; another one
is visited, and the numbers behind it are put into the queue if the search goes on from it. -/
inductive Finds (g : Graph) (passes goal : BlockId → Bool) :
    Nat → List BlockId → List BlockId → Option BlockId → Prop where
  | exhausted {seen : List BlockId} : Finds g passes goal 0 seen [] none
  | passesOver {rounds : Nat} {seen queue : List BlockId} {id : BlockId} {found : Option BlockId} (h : id ∈ seen)
      (h' : Finds g passes goal rounds seen queue found) : Finds g passes goal (rounds + 1) seen (id :: queue) found
  | answers {seen queue : List BlockId} {id : BlockId} (h : id ∉ seen) (hgoal : goal id = true) :
      Finds g passes goal 1 seen (id :: queue) (some id)
  | visits {rounds : Nat} {seen queue : List BlockId} {id : BlockId} {found : Option BlockId} (h : id ∉ seen)
      (hgoal : goal id = false)
      (h' : Finds g passes goal rounds (id :: seen) (queue ++ if passes id then g.targets id else []) found) :
      Finds g passes goal (rounds + 1) seen (id :: queue) found

/-- **A search for a goal ends**, at the latest where the search for everything does, and its answer is the first goal
that would be visited. -/
theorem Searched.finds {visited : List BlockId} (h : g.Searched passes seen queue visited) (goal : BlockId → Bool) :
    ∃ rounds, g.Finds passes goal rounds seen queue (visited.find? goal) := by
  induction h with
  | ends => exact ⟨0, .exhausted⟩
  | passesOver hseen _ ih =>
    obtain ⟨rounds, hrounds⟩ := ih
    exact ⟨rounds + 1, .passesOver hseen hrounds⟩
  | @visits _ _ _ id hfresh _ ih =>
    cases hgoal : goal id with
    | true =>
      rw [List.find?_cons_of_pos hgoal]
      exact ⟨1, .answers hfresh hgoal⟩
    | false =>
      rw [List.find?_cons_of_neg (by rw [hgoal]; exact Bool.false_ne_true)]
      obtain ⟨rounds, hrounds⟩ := ih
      exact ⟨rounds + 1, .visits hfresh hgoal hrounds⟩

/-- **The number of rounds**: no more than there are numbers in the queue and edges from numbers that were not seen. -/
theorem Finds.rounds_le {rounds : Nat} {found : Option BlockId} (h : g.Finds passes goal rounds seen queue found) :
    rounds ≤ queue.length + unused Edge.source g.edges seen := by
  induction h with
  | exhausted => exact Nat.zero_le _
  | passesOver _ _ ih =>
    rw [List.length_cons]
    omega
  | answers =>
    rw [List.length_cons]
    omega
  | @visits _ seen queue id _ hfresh _ _ ih =>
    have hwaiting := g.waiting_le passes queue hfresh
    rw [List.length_cons]
    omega

/-! ### What a search knows between two rounds -/

/-- Paths of a search go through what it goes on from, and do not come back to where it began. -/
def Passable (passes : BlockId → Bool) (start id : BlockId) : Prop := passes id = true ∧ id ≠ start

/-- What a search from a number knows before it has found a goal.  Its queue is in two parts: in front the numbers that
are some edges away, at the back those that are one edge more away.  Whatever is fewer edges away was seen, and whatever
is as many edges away as the front was seen or waits there. -/
structure Levels (g : Graph) (passes goal : BlockId → Bool) (start : BlockId) (edges : Nat)
    (front back seen : List BlockId) : Prop where
  pos : 0 < edges
  near : ∀ id ∈ front, g.Reached (Passable passes start) start edges id
  far : ∀ id ∈ back, g.Reached (Passable passes start) start (edges + 1) id
  start_mem : start ∈ seen
  no_goal : ∀ id ∈ seen, id ≠ start → goal id = false
  below : ∀ fewer < edges, ∀ id, g.Reached (Passable passes start) start fewer id → id ∈ seen
  level : ∀ id, g.Reached (Passable passes start) start edges id → id ∈ seen ∨ id ∈ front
  beyond : ∀ id ∈ seen, id = start ∨ passes id = true →
    ∀ target ∈ g.targets id, target ∈ seen ∨ target ∈ front ++ back

/-- Nothing is lost when the first number leaves the queue, if it counts as seen from then on. -/
theorem seen_or_waits {more : List BlockId} (hsub : seen ⊆ more) (hid : id ∈ more) {other : BlockId}
    (h : other ∈ seen ∨ other ∈ id :: queue) : other ∈ more ∨ other ∈ queue := by
  rcases h with hseen | hwaits
  · exact .inl (hsub hseen)
  · rcases List.mem_cons.mp hwaits with rfl | hqueue
    · exact .inl hid
    · exact .inr hqueue

namespace Levels

/-- What was not seen yet is not where the search began. -/
theorem ne_start (h : g.Levels passes goal start edges front back seen) (hfresh : id ∉ seen) : id ≠ start := by
  rintro rfl
  exact hfresh h.start_mem

/-- A search begins with what is one edge away. -/
theorem begin (g : Graph) (passes goal : BlockId → Bool) (start : BlockId) :
    g.Levels passes goal start 1 (g.targets start) [] [start] where
  pos := Nat.one_pos
  near := fun _ hid => .edge hid
  far := fun _ hid => absurd hid List.not_mem_nil
  start_mem := List.mem_singleton_self start
  no_goal := fun _ hid hne => absurd (List.mem_singleton.mp hid) hne
  below := fun _ hfewer _ hid => absurd hid.pos (Nat.not_lt.mpr (Nat.le_of_lt_succ hfewer))
  level := by
    intro id hid
    cases hid with
    | edge hid => exact .inr hid
    | onward hid => exact absurd hid.pos (Nat.lt_irrefl 0)
  beyond := by
    intro id hid _ target ht
    rw [List.mem_singleton.mp hid] at ht
    exact .inr (List.mem_append_left [] ht)

/-- With the front used up, the back is the front of the next level. -/
theorem descend (h : g.Levels passes goal start edges [] back seen) :
    g.Levels passes goal start (edges + 1) back [] seen where
  pos := Nat.succ_pos edges
  near := h.far
  far := fun _ hid => absurd hid List.not_mem_nil
  start_mem := h.start_mem
  no_goal := h.no_goal
  below := by
    intro fewer hfewer id hid
    rcases Nat.lt_succ_iff_lt_or_eq.mp hfewer with hlt | rfl
    · exact h.below fewer hlt id hid
    · exact (h.level id hid).resolve_right List.not_mem_nil
  level := by
    intro target ht
    cases ht with
    | edge => exact absurd h.pos (Nat.lt_irrefl 0)
    | @onward _ id _ hid hpassable ht =>
      have hseen : id ∈ seen := (h.level id hid).resolve_right List.not_mem_nil
      exact h.beyond id hseen (.inr hpassable.1) target ht
  beyond := fun id hid hpasses target ht => (h.beyond id hid hpasses target ht).imp_right (List.mem_append_left [])

/-- The number that is taken from the queue is the first of a front: of this one, or of the next if this one is used
up. -/
theorem exists_front (h : g.Levels passes goal start edges front back seen) (hqueue : id :: queue = front ++ back) :
    ∃ edges front back, g.Levels passes goal start edges (id :: front) back seen ∧ queue = front ++ back := by
  cases front with
  | nil =>
    rw [List.nil_append] at hqueue
    subst hqueue
    exact ⟨edges + 1, queue, [], h.descend, (List.append_nil queue).symm⟩
  | cons first front =>
    rw [List.cons_append] at hqueue
    obtain ⟨rfl, hrest⟩ := List.cons.inj hqueue
    exact ⟨edges, front, back, h, hrest⟩

/-- A number that was seen before is passed over. -/
theorem passOver (h : g.Levels passes goal start edges (id :: front) back seen) (hseen : id ∈ seen) :
    g.Levels passes goal start edges front back seen where
  pos := h.pos
  near := fun other hother => h.near other (List.mem_cons_of_mem id hother)
  far := h.far
  start_mem := h.start_mem
  no_goal := h.no_goal
  below := h.below
  level := fun other hother => seen_or_waits (List.Subset.refl seen) hseen (h.level other hother)
  beyond := fun other hother hpasses target ht =>
    seen_or_waits (List.Subset.refl seen) hseen (h.beyond other hother hpasses target ht)

/-- A number that is visited has been seen, and what is behind it waits at the back. -/
theorem visit (h : g.Levels passes goal start edges (id :: front) back seen) (hfresh : id ∉ seen)
    (hgoal : goal id = false) :
    g.Levels passes goal start edges front (back ++ if passes id then g.targets id else []) (id :: seen) where
  pos := h.pos
  near := fun other hother => h.near other (List.mem_cons_of_mem id hother)
  far := by
    intro target ht
    rcases List.mem_append.mp ht with hback | hbehind
    · exact h.far target hback
    · split at hbehind
      · next hpasses => exact (h.near id List.mem_cons_self).onward ⟨hpasses, h.ne_start hfresh⟩ hbehind
      · cases hbehind
  start_mem := List.mem_cons_of_mem id h.start_mem
  no_goal := by
    intro other hother hne
    rcases List.mem_cons.mp hother with rfl | hother
    · exact hgoal
    · exact h.no_goal other hother hne
  below := fun fewer hfewer other hother => List.mem_cons_of_mem id (h.below fewer hfewer other hother)
  level := fun other hother => seen_or_waits (List.subset_cons_self id seen) List.mem_cons_self (h.level other hother)
  beyond := by
    intro other hother hpasses target ht
    rcases List.mem_cons.mp hother with rfl | hother
    · -- What is behind the number itself has just been put into the queue.
      have hpass : passes other = true := hpasses.resolve_left (h.ne_start hfresh)
      rw [if_pos hpass]
      exact .inr (List.mem_append_right front (List.mem_append_right back ht))
    · rw [← List.append_assoc]
      have hbefore := seen_or_waits (List.subset_cons_self id seen) List.mem_cons_self
        (h.beyond other hother hpasses target ht)
      exact hbefore.imp_right (List.mem_append_left _)

/-- A goal in front is a nearest one: what is fewer edges away was seen, and is none. -/
theorem nearest_goal (h : g.Levels passes goal start edges (id :: front) back seen) (hfresh : id ∉ seen)
    (hgoal : goal id = true) : g.Nearest (Passable passes start) (goal · = true) start (some id) := by
  refine ⟨edges, ⟨hgoal, h.ne_start hfresh, h.near id List.mem_cons_self⟩, fun fewer other hattained => ?_⟩
  by_contra hlt
  have hseen : other ∈ seen := h.below fewer (Nat.not_le.mp hlt) other hattained.reached
  exact Bool.false_ne_true ((h.no_goal other hseen hattained.other).symm.trans hattained.goal)

/-- With nothing left in the queue, everything that paths lead to was seen. -/
theorem mem_seen (h : g.Levels passes goal start edges [] [] seen) {length : Nat}
    (hid : g.Reached (Passable passes start) start length id) : id ∈ seen := by
  have hclosed : ∀ id ∈ seen, id = start ∨ passes id = true → ∀ target ∈ g.targets id, target ∈ seen := by
    intro id hid hpasses target ht
    exact (h.beyond id hid hpasses target ht).resolve_right List.not_mem_nil
  induction hid with
  | edge ht => exact hclosed start h.start_mem (.inl rfl) _ ht
  | onward _ hpassable ht ih => exact hclosed _ ih (.inr hpassable.1) _ ht

/-- With nothing left in the queue, no path leads to a goal. -/
theorem nearest_none (h : g.Levels passes goal start edges [] [] seen) :
    g.Nearest (Passable passes start) (goal · = true) start none := by
  intro length id hattained
  have hseen : id ∈ seen := h.mem_seen hattained.reached
  exact Bool.false_ne_true ((h.no_goal id hseen hattained.other).symm.trans hattained.goal)

end Levels

/-- **The answer of a search**: a goal to which no path is shorter, or none if no path leads to one. -/
theorem Finds.nearest {rounds : Nat} {found : Option BlockId} (h : g.Finds passes goal rounds seen queue found)
    (hlevels : g.Levels passes goal start edges front back seen) (hqueue : queue = front ++ back) :
    g.Nearest (Passable passes start) (goal · = true) start found := by
  induction h generalizing edges front back with
  | exhausted =>
    obtain ⟨rfl, rfl⟩ := List.append_eq_nil_iff.mp hqueue.symm
    exact hlevels.nearest_none
  | passesOver hseen _ ih =>
    obtain ⟨_, _, _, hlevels, hrest⟩ := hlevels.exists_front hqueue
    exact ih (hlevels.passOver hseen) hrest
  | answers hfresh hgoal =>
    obtain ⟨_, _, _, hlevels, -⟩ := hlevels.exists_front hqueue
    exact hlevels.nearest_goal hfresh hgoal
  | visits hfresh hgoal _ ih =>
    obtain ⟨_, _, _, hlevels, hrest⟩ := hlevels.exists_front hqueue
    exact ih (hlevels.visit hfresh hgoal) (by rw [hrest, List.append_assoc])

end Search

/-! ### Merge blocks -/

variable {walls : List BlockId} {start id : BlockId}

/-- Paths to merge blocks go through the blocks of the chart, but not through merge blocks, end blocks and walls, and
not through the block where they begin. -/
structure Clear (g : Graph) (walls : List BlockId) (start id : BlockId) : Prop where
  block : ∃ b ∈ g.blocks, b.id = id ∧ b.kind ≠ .merge ∧ b.kind ≠ .finish
  wall : id ∉ walls
  other : id ≠ start

/-- A merge block of the chart has the number. -/
def HasMerge (g : Graph) (id : BlockId) : Prop := ∃ b ∈ g.blocks, b.id = id ∧ b.kind = .merge

/-- A path of so many edges leads from a block to another one, which is a merge block. -/
def LeadsToMerge (g : Graph) (walls : List BlockId) (start : BlockId) (edges : Nat) (id : BlockId) : Prop :=
  g.Attained (g.Clear walls start) g.HasMerge start edges id

/-- The search takes for merge blocks what are merge blocks of the chart. -/
theorem isMerge_iff (hnodup : (g.blocks.map Block.id).Nodup) : g.isMerge id = true ↔ g.HasMerge id := by
  unfold isMerge HasMerge
  rw [Option.any_eq_true]
  constructor
  · rintro ⟨b, hb, hkind⟩
    obtain ⟨hmem, hid⟩ := mem_of_block? hb
    exact ⟨b, hmem, hid, beq_iff_eq.mp hkind⟩
  · rintro ⟨b, hmem, rfl, hkind⟩
    exact ⟨b, block?_of_mem hnodup hmem, beq_iff_eq.mpr hkind⟩

/-- The search goes on where paths to merge blocks do. -/
theorem passable_iff (hnodup : (g.blocks.map Block.id).Nodup) :
    Passable (g.passesForMerge walls) start id ↔ g.Clear walls start id := by
  unfold Passable passesForMerge
  constructor
  · rintro ⟨hpasses, hother⟩
    split at hpasses
    · cases hpasses
    · next b hb =>
      obtain ⟨hmem, hid⟩ := mem_of_block? hb
      simp only [Bool.and_eq_true, bne_iff_ne, Bool.not_eq_true', List.contains_eq_mem, decide_eq_false_iff_not]
        at hpasses
      obtain ⟨⟨hmerge, hfinish⟩, hwall⟩ := hpasses
      exact ⟨⟨b, hmem, hid, hmerge, hfinish⟩, hwall, hother⟩
  · rintro ⟨⟨b, hmem, rfl, hmerge, hfinish⟩, hwall, hother⟩
    rw [block?_of_mem hnodup hmem]
    simp [hmerge, hfinish, hwall, hother]

/-- The answer of the search for a merge block, told by the blocks of the chart. -/
theorem nearest_nearestMerge? (hnodup : (g.blocks.map Block.id).Nodup) (walls : List BlockId) (start : BlockId) :
    g.Nearest (g.Clear walls start) g.HasMerge start (g.nearestMerge? walls start) := by
  have hpassable : Passable (g.passesForMerge walls) start = g.Clear walls start :=
    funext fun _ => propext (passable_iff hnodup)
  have hmerge : (g.isMerge · = true) = g.HasMerge := funext fun _ => propext (isMerge_iff hnodup)
  obtain ⟨rounds, hfinds⟩ := (g.mergeSearch_searched walls start).finds g.isMerge
  rw [← hpassable, ← hmerge]
  exact hfinds.nearest (.begin g _ _ start) (List.append_nil _).symm

/-- The search for a merge block takes no more rounds than the chart has edges. -/
theorem finds_nearestMerge? (g : Graph) (walls : List BlockId) (start : BlockId) :
    ∃ rounds ≤ g.edges.length, g.Finds (g.passesForMerge walls) g.isMerge rounds [start] (g.targets start)
      (g.nearestMerge? walls start) := by
  obtain ⟨rounds, hfinds⟩ := (g.mergeSearch_searched walls start).finds g.isMerge
  have hrounds := hfinds.rounds_le
  have hsum := unused_cons Edge.source g.edges (List.not_mem_nil (a := start))
  have hedges := unused_le_length Edge.source g.edges []
  rw [length_targets] at hrounds
  exact ⟨rounds, by omega, hfinds⟩

/-- **The nearest merge block.**  On a chart without repeated numbers, what is found is a merge block to which a path
leads, and no path to a merge block has fewer edges; nothing is found exactly if no path leads to a merge block.  On any
chart the search comes to its end, in no more rounds than there are edges. -/
theorem nearestMerge?_nearest (g : Graph) (walls : List BlockId) (start : BlockId) :
    ((g.blocks.map Block.id).Nodup →
      (∀ id, g.nearestMerge? walls start = some id → ∃ edges, g.LeadsToMerge walls start edges id ∧
        ∀ more other, g.LeadsToMerge walls start more other → edges ≤ more) ∧
      (g.nearestMerge? walls start = none ↔ ¬∃ edges id, g.LeadsToMerge walls start edges id)) ∧
    ∃ rounds ≤ g.edges.length, g.Finds (g.passesForMerge walls) g.isMerge rounds [start] (g.targets start)
      (g.nearestMerge? walls start) := by
  refine ⟨fun hnodup => ?_, g.finds_nearestMerge? walls start⟩
  have hnearest := nearest_nearestMerge? hnodup walls start
  cases hfound : g.nearestMerge? walls start with
  | none =>
    rw [hfound] at hnearest
    refine ⟨fun id hid => absurd hid.symm (Option.some_ne_none id), iff_of_true rfl ?_⟩
    rintro ⟨edges, id, hleads⟩
    exact hnearest edges id hleads
  | some id =>
    rw [hfound] at hnearest
    obtain ⟨edges, hleads, hleast⟩ := hnearest
    refine ⟨?_, iff_of_false (Option.some_ne_none id) fun hnone => hnone ⟨edges, id, hleads⟩⟩
    rintro _ ⟨⟩
    exact ⟨edges, hleads, hleast⟩

end Graph

/-- A choice with two ways in a circle between them.  The merge block three is two edges away, but only through the end
block, through a block that does not exist and through a loop that is a wall; the merge block five is three edges
away. -/
def detours : Graph where
  blocks := [⟨3, .merge, ""⟩, ⟨0, .conditional, "a < 1"⟩, ⟨1, .assignment, "a = 1"⟩, ⟨2, .output, "a"⟩,
    ⟨4, .loop, "a < 2"⟩, ⟨5, .merge, ""⟩, ⟨6, .finish, ""⟩, ⟨7, .assignment, "a = 2"⟩]
  edges := [⟨0, 1, none, some .whenTrue⟩, ⟨0, 2, none, some .whenFalse⟩, ⟨0, 4, none, none⟩, ⟨0, 6, none, none⟩,
    ⟨0, 9, none, none⟩, ⟨1, 2, none, none⟩, ⟨2, 1, none, none⟩, ⟨2, 0, none, none⟩, ⟨2, 7, none, none⟩,
    ⟨4, 3, none, some .whenTrue⟩, ⟨6, 3, none, none⟩, ⟨9, 3, none, none⟩, ⟨7, 5, none, none⟩]

/-- The search finds the merge block that is farther away, since the closer one is behind walls. -/
theorem Graph.nearestMerge?_nearest_detours : (detours.blocks.map Block.id).Nodup ∧
    detours.nearestMerge? [4] 0 = some 5 ∧ ∃ edges, detours.LeadsToMerge [4] 0 edges 5 ∧
      ∀ more other, detours.LeadsToMerge [4] 0 more other → edges ≤ more := by
  have hnodup : (detours.blocks.map Block.id).Nodup := by decide
  have hfound : detours.nearestMerge? [4] 0 = some 5 := by decide
  obtain ⟨hsome, -⟩ := (nearestMerge?_nearest detours [4] 0).1 hnodup
  exact ⟨hnodup, hfound, hsome 5 hfound⟩

end Flowchart
