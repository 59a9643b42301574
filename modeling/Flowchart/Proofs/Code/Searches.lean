import Flowchart.Code.Recovery

/-!
# Searches come to an end

The edges of a chart may lead in circles, to blocks that do not exist, and more than once to the same block.  The
loops that go along them are written with a bound on the number of rounds, and here is why the bound is never what
stops them: every round uses up something of which there is only so much.

* `unused` — how many elements of a list have a number that is not among those that were used.
* `Graph.Live` — what can be come to from the start block.  **`Graph.live_iff_mem_breadthFirst`** says that the search
  from the start block visits just that.
* `Graph.Searched` — a breadth-first search from its beginning to the round that finds nothing left to look at.
  **`Graph.visits_searched`** says that the search with bounded rounds is such a search: every round takes a number
  from the queue, and only the edges of a number that was not visited before put others there.
* `Graph.TracedBack` — the walk back to the beginning of a body.  **`Graph.backToEntry_tracedBack`** says that the
  walk with bounded rounds is such a walk: it stands on a new block in every round.
-/

namespace Flowchart

/-! ### What is not used yet -/

section Unused

variable {α : Type} (key : α → BlockId)

/-- How many elements of a list have a number that is not among those that were used. -/
def unused (l : List α) (used : List BlockId) : Nat := l.countP fun a => !used.contains (key a)

theorem unused_le_length (l : List α) (used : List BlockId) : unused key l used ≤ l.length :=
  List.countP_le_length

/-- A number that is used for the first time uses up the elements that have it. -/
theorem unused_cons (l : List α) {used : List BlockId} {id : BlockId} (h : id ∉ used) :
    l.countP (fun a => key a == id) + unused key l (id :: used) = unused key l used := by
  unfold unused
  induction l with
  | nil => rfl
  | cons a rest ih =>
    rw [List.countP_cons, List.countP_cons, List.countP_cons, List.contains_cons]
    by_cases ha : key a = id
    · have hself : (key a == id) = true := beq_iff_eq.mpr ha
      have hfresh : used.contains (key a) = false := by rw [ha]; simpa using h
      rw [hself, hfresh]
      simp only [Bool.true_or, Bool.not_true, Bool.not_false, Bool.false_eq_true, if_true, if_false]
      omega
    · have hother : (key a == id) = false := beq_eq_false_iff_ne.mpr ha
      rw [hother]
      simp only [Bool.false_or, Bool.false_eq_true, if_false]
      omega

/-- The number of an element is used up. -/
theorem unused_cons_lt {l : List α} {used : List BlockId} {a : α} (ha : a ∈ l) (h : key a ∉ used) :
    unused key l (key a :: used) < unused key l used := by
  have hsum := unused_cons key l h
  have hpos : 0 < l.countP fun other => key other == key a :=
    List.countP_pos_iff.mpr ⟨a, ha, by simp⟩
  omega

/-- Where more is used, less is left. -/
theorem unused_mono (l : List α) {used more : List BlockId} (h : used ⊆ more) :
    unused key l more ≤ unused key l used := by
  refine List.countP_mono_left fun a _ ha => ?_
  simp only [Bool.not_eq_true', List.contains_eq_mem, decide_eq_false_iff_not] at ha ⊢
  exact fun hused => ha (h hused)

end Unused

/-- A search along a list with a test that gives the same for all elements of the list. -/
theorem find?_congr_of_mem {α : Type} {p q : α → Bool} {l : List α} (h : ∀ a ∈ l, p a = q a) :
    l.find? p = l.find? q := by
  induction l with
  | nil => rfl
  | cons a l ih =>
    rw [List.find?_cons, List.find?_cons, h a List.mem_cons_self, ih fun b hb => h b (List.mem_cons_of_mem a hb)]

namespace Graph

variable {g : Graph}

/-! ### What can be come to -/

/-- A number is that of the start block, or an edge leads to it from one that can be come to. -/
inductive Live (g : Graph) : BlockId → Prop where
  | start {id : BlockId} (h : g.start? = some id) : Live g id
  | step {id target : BlockId} (h : Live g id) (ht : target ∈ g.targets id) : Live g target

/-- What can be come to stays within the numbers that the edges do not leave. -/
theorem Live.mem {within : List BlockId} (hstart : ∀ start, g.start? = some start → start ∈ within)
    (hclosed : ∀ id ∈ within, ∀ target ∈ g.targets id, target ∈ within) {id : BlockId} (h : g.Live id) :
    id ∈ within := by
  induction h with
  | start h => exact hstart _ h
  | step _ ht ih => exact hclosed _ ih _ ht

/-! ### Breadth-first search -/

/-- A search that comes to its end: what was seen, the queue, and what is visited from there on.  A number that was
seen before is passed over; another one is visited, and the numbers behind it are put into the queue if the search
goes on from it. -/
inductive Searched (g : Graph) (passes : BlockId → Bool) : List BlockId → List BlockId → List BlockId → Prop where
  | ends {seen : List BlockId} : Searched g passes seen [] []
  | passesOver {seen queue visited : List BlockId} {id : BlockId} (h : id ∈ seen)
      (h' : Searched g passes seen queue visited) : Searched g passes seen (id :: queue) visited
  | visits {seen queue visited : List BlockId} {id : BlockId} (h : id ∉ seen)
      (h' : Searched g passes (id :: seen) (queue ++ if passes id then g.targets id else []) visited) :
      Searched g passes seen (id :: queue) (id :: visited)

/-- There is one way in which a search comes to its end. -/
theorem Searched.unique {passes : BlockId → Bool} {seen queue visited other : List BlockId}
    (h : g.Searched passes seen queue visited) (h' : g.Searched passes seen queue other) : visited = other := by
  induction h generalizing other with
  | ends =>
    cases h' with
    | ends => rfl
  | passesOver hseen _ ih =>
    cases h' with
    | passesOver _ hrest => exact ih hrest
    | visits hfresh _ => exact absurd hseen hfresh
  | visits hfresh _ ih =>
    cases h' with
    | passesOver hseen _ => exact absurd hseen hfresh
    | visits _ hrest => rw [ih hrest]

/-- A search visits what it has begun with, and what it comes to from there. -/
theorem Searched.forall {passes : BlockId → Bool} {within : BlockId → Prop}
    (hclosed : ∀ id, within id → passes id = true → ∀ target ∈ g.targets id, within target)
    {seen queue visited : List BlockId} (h : g.Searched passes seen queue visited)
    (hqueue : ∀ id ∈ queue, within id) : ∀ id ∈ visited, within id := by
  induction h with
  | ends => exact fun id hid => absurd hid List.not_mem_nil
  | passesOver _ _ ih => exact ih fun id hid => hqueue id (List.mem_cons_of_mem _ hid)
  | @visits seen queue visited first _ _ ih =>
    have hfirst := hqueue first List.mem_cons_self
    intro id hid
    rcases List.mem_cons.mp hid with rfl | hid
    · exact hfirst
    · refine ih (fun next hnext => ?_) id hid
      rcases List.mem_append.mp hnext with hnext | hnext
      · exact hqueue next (List.mem_cons_of_mem _ hnext)
      · split at hnext
        · next hpass => exact hclosed first hfirst hpass next hnext
        · cases hnext

/-- A search leaves nothing in the queue that it has not visited, and nothing behind what it goes on from. -/
theorem Searched.complete {passes : BlockId → Bool} {seen queue visited : List BlockId}
    (h : g.Searched passes seen queue visited) :
    (∀ id ∈ queue, id ∈ seen ∨ id ∈ visited) ∧
    ∀ id ∈ visited, passes id = true → ∀ target ∈ g.targets id, target ∈ seen ∨ target ∈ visited := by
  induction h with
  | ends => exact ⟨fun id hid => absurd hid List.not_mem_nil, fun id hid => absurd hid List.not_mem_nil⟩
  | passesOver hseen _ ih =>
    refine ⟨fun id hid => ?_, ih.2⟩
    rcases List.mem_cons.mp hid with rfl | hid
    · exact .inl hseen
    · exact ih.1 id hid
  | @visits seen queue visited first hfresh _ ih =>
    -- What the rest of the search has seen before is the number visited now, or was seen before.
    have hmove : ∀ id, id ∈ first :: seen ∨ id ∈ visited → id ∈ seen ∨ id ∈ first :: visited := by
      rintro id (hid | hid)
      · rcases List.mem_cons.mp hid with rfl | hid
        · exact .inr List.mem_cons_self
        · exact .inl hid
      · exact .inr (List.mem_cons_of_mem _ hid)
    constructor
    · intro id hid
      rcases List.mem_cons.mp hid with rfl | hid
      · exact .inr List.mem_cons_self
      · exact hmove id (ih.1 id (List.mem_append_left _ hid))
    · intro id hid hpasses target ht
      rcases List.mem_cons.mp hid with rfl | hid
      · exact hmove target (ih.1 target (List.mem_append_right _ (by rwa [if_pos hpasses])))
      · exact hmove target (ih.2 id hid hpasses target ht)

/-- A number puts as many numbers into the queue as edges leave it. -/
theorem length_targets (g : Graph) (id : BlockId) :
    (g.targets id).length = g.edges.countP fun e => e.source == id := by
  unfold targets outgoing
  rw [List.length_map, List.countP_eq_length_filter]

/-- A visit puts no more into the queue than it uses up: the edges that fill the queue are no longer counted among
those from numbers that were not seen. -/
theorem waiting_le (g : Graph) (passes : BlockId → Bool) (queue : List BlockId) {seen : List BlockId} {id : BlockId}
    (h : id ∉ seen) :
    (queue ++ if passes id then g.targets id else []).length + unused Edge.source g.edges (id :: seen) ≤
      queue.length + unused Edge.source g.edges seen := by
  have hedges := unused_cons Edge.source g.edges h
  have hfill : (if passes id then g.targets id else []).length ≤ (g.targets id).length := by
    split
    · exact Nat.le_refl _
    · exact Nat.zero_le _
  rw [length_targets] at hfill
  rw [List.length_append]
  omega

/-- **A search with enough rounds comes to its end**: enough are as many as there are numbers in the queue and
edges from numbers that were not seen yet. -/
theorem visits_searched (passes : BlockId → Bool) {fuel : Nat} {seen queue : List BlockId}
    (h : queue.length + unused Edge.source g.edges seen ≤ fuel) :
    g.Searched passes seen queue (g.visits passes fuel seen queue) := by
  induction fuel generalizing seen queue with
  | zero =>
    have hqueue : queue = [] := List.eq_nil_of_length_eq_zero (by omega)
    rw [hqueue]
    exact .ends
  | succ fuel ih =>
    cases queue with
    | nil => exact .ends
    | cons id queue =>
      rw [List.length_cons] at h
      rw [visits]
      by_cases hseen : id ∈ seen
      · rw [if_pos (by simpa using hseen)]
        exact .passesOver hseen (ih (by omega))
      · rw [if_neg (by simpa using hseen)]
        have hwaiting := g.waiting_le passes queue hseen
        exact .visits hseen (ih (by omega))

/-- The search for everything behind a block comes to its end. -/
theorem breadthFirst_searched (g : Graph) (start : BlockId) :
    g.Searched (fun _ => true) [] [start] (g.breadthFirst start) := by
  refine visits_searched _ ?_
  have hedges := unused_le_length Edge.source g.edges []
  rw [List.length_singleton]
  unfold searchFuel
  omega

/-- **The search from the start block visits what can be come to**, all of it and nothing else. -/
theorem live_iff_mem_breadthFirst {start : BlockId} (hstart : g.start? = some start) (id : BlockId) :
    g.Live id ↔ id ∈ g.breadthFirst start := by
  obtain ⟨hqueue, hclosed⟩ := (g.breadthFirst_searched start).complete
  have hvisited : ∀ id, id ∈ [] ∨ id ∈ g.breadthFirst start → id ∈ g.breadthFirst start :=
    fun id hid => hid.resolve_left List.not_mem_nil
  constructor
  · intro hlive
    refine hlive.mem (fun other hother => ?_) fun id hid target ht => hvisited target (hclosed id hid rfl target ht)
    cases hstart.symm.trans hother
    exact hvisited start (hqueue start List.mem_cons_self)
  · have hqueue : ∀ id ∈ [start], g.Live id := fun _ hid => List.mem_singleton.mp hid ▸ .start hstart
    exact (g.breadthFirst_searched start).forall (fun _ hid _ _ ht => hid.step ht) hqueue id

theorem not_live_of_start?_eq_none (hstart : g.start? = none) (id : BlockId) : ¬g.Live id := by
  intro hlive
  induction hlive with
  | start h => cases hstart.symm.trans h
  | step _ _ ih => exact ih

/-- The search decides what can be come to. -/
instance (g : Graph) (id : BlockId) : Decidable (g.Live id) :=
  match hstart : g.start? with
  | some start => decidable_of_iff (id ∈ g.breadthFirst start) (live_iff_mem_breadthFirst hstart id).symm
  | none => .isFalse (not_live_of_start?_eq_none hstart id)

/-- The search for a merge block comes to its end. -/
theorem mergeSearch_searched (g : Graph) (walls : List BlockId) (id : BlockId) :
    g.Searched (g.passesForMerge walls) [id] (g.targets id)
      (g.visits (g.passesForMerge walls) g.searchFuel [id] (g.targets id)) := by
  refine visits_searched _ ?_
  have hsum := unused_cons Edge.source g.edges (List.not_mem_nil (a := id))
  have hedges := unused_le_length Edge.source g.edges []
  rw [length_targets]
  unfold searchFuel
  omega

/-! ### The way back to the beginning of a body -/

/-- A walk back that comes to its end: the numbers seen, where the walk stands, and what it finds. -/
inductive TracedBack (g : Graph) (test : BlockId) : List BlockId → BlockId → Option BlockId → Prop where
  | missing {seen : List BlockId} {id : BlockId} (h : g.block? id = none) : TracedBack g test seen id none
  | rests {seen : List BlockId} {id : BlockId} {b : Block} (h : g.block? id = some b)
      (hrest : b.kind = .merge ∨ id ∈ seen) : TracedBack g test seen id (some id)
  | begins {seen : List BlockId} {id : BlockId} (h : (g.incoming id).head?.map Edge.source = none ∨
      (g.incoming id).head?.map Edge.source = some test) : TracedBack g test seen id (some id)
  | back {seen : List BlockId} {id previous : BlockId} {found : Option BlockId} (hseen : id ∉ seen)
      (hprevious : (g.incoming id).head?.map Edge.source = some previous)
      (h : TracedBack g test (id :: seen) previous found) : TracedBack g test seen id found

/-- **A walk back with enough rounds comes to its end**: enough is one more than there are blocks that it has not
stood on. -/
theorem backToEntry_tracedBack (test : BlockId) {fuel : Nat} {seen : List BlockId} {id : BlockId}
    (h : unused Block.id g.blocks seen < fuel) : g.TracedBack test seen id (g.backToEntry test fuel seen id) := by
  induction fuel generalizing seen id with
  | zero => omega
  | succ fuel ih =>
    rw [backToEntry]
    cases hblock : g.block? id with
    | none => exact .missing hblock
    | some b =>
      dsimp only
      by_cases hrest : b.kind = .merge ∨ id ∈ seen
      · rw [if_pos hrest]
        exact .rests hblock hrest
      rw [if_neg hrest]
      have hseen : id ∉ seen := fun hmem => hrest (.inr hmem)
      rw [List.head?_map]
      cases hprevious : (g.incoming id).head?.map Edge.source with
      | none => exact .begins (.inl hprevious)
      | some previous =>
        dsimp only
        by_cases htest : previous = test
        · rw [if_pos htest]
          exact .begins (.inr (by rw [hprevious, htest]))
        rw [if_neg htest]
        obtain ⟨hmem, hid⟩ := mem_of_block? hblock
        have hfewer := unused_cons_lt Block.id hmem (hid ▸ hseen)
        rw [hid] at hfewer
        exact .back hseen hprevious (ih (by omega))

end Graph

end Flowchart
