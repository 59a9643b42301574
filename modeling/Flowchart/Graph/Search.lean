import Flowchart.Graph.Basic

/-!
# Breadth-first search

Blocks are visited in the order of their distance from where the search begins, and blocks of the same distance
in the order of the edges that lead to them.

* `Graph.visits` — the numbers visited, each once.  Whether the search goes on from a block is up to the caller.
  The number of visits and of repeated encounters is bounded by the fuel; every edge puts at most one number
  into the queue, so one more than the number of edges is enough.
* `Graph.breadthFirst` — all that can be reached from a block.
* `Graph.nearestMerge?` — the closest merge block beyond a block, with end blocks and given blocks as walls.
-/

namespace Flowchart.Graph

/-- The numbers visited by a search that has seen some numbers and has a queue of others to look at. -/
def visits (g : Graph) (passes : BlockId → Bool) : Nat → List BlockId → List BlockId → List BlockId
  | 0, _, _ => []
  | _ + 1, _, [] => []
  | fuel + 1, seen, id :: queue =>
    if seen.contains id then visits g passes fuel seen queue
    else id :: visits g passes fuel (id :: seen) (queue ++ if passes id then g.targets id else [])

/-- A search never visits what it has seen. -/
theorem not_mem_visits {g : Graph} {passes : BlockId → Bool} {fuel : Nat} {seen queue : List BlockId}
    {id : BlockId} (h : id ∈ seen) : id ∉ g.visits passes fuel seen queue := by
  induction fuel generalizing seen queue with
  | zero => simp [visits]
  | succ fuel ih =>
    cases queue with
    | nil => simp [visits]
    | cons other queue =>
      rw [visits]
      split
      · exact ih h
      · next hseen =>
        intro hmem
        rcases List.mem_cons.mp hmem with rfl | hrest
        · exact hseen (by simpa using h)
        · exact ih (List.mem_cons_of_mem other h) hrest

/-- A search visits nothing twice. -/
theorem nodup_visits (g : Graph) (passes : BlockId → Bool) (fuel : Nat) (seen queue : List BlockId) :
    (g.visits passes fuel seen queue).Nodup := by
  induction fuel generalizing seen queue with
  | zero => exact List.nodup_nil
  | succ fuel ih =>
    cases queue with
    | nil => exact List.nodup_nil
    | cons id queue =>
      rw [visits]
      split
      · exact ih seen queue
      · exact List.nodup_cons.mpr ⟨not_mem_visits List.mem_cons_self, ih _ _⟩

/-- The fuel that every search in a chart can do with. -/
def searchFuel (g : Graph) : Nat := g.edges.length + 1

/-- The numbers that can be reached from a block, itself first. -/
def breadthFirst (g : Graph) (start : BlockId) : List BlockId :=
  g.visits (fun _ => true) g.searchFuel [] [start]

/-- The number is that of a merge block. -/
def isMerge (g : Graph) (id : BlockId) : Bool := (g.block? id).any fun b => b.kind == .merge

/-- A search for merge blocks goes on from every block but merge blocks, end blocks and the walls. -/
def passesForMerge (g : Graph) (walls : List BlockId) (id : BlockId) : Bool :=
  match g.block? id with
  | none => false
  | some b => b.kind != .merge && b.kind != .finish && !walls.contains id

/-- The closest merge block that can be reached from a block by one edge or more. -/
def nearestMerge? (g : Graph) (walls : List BlockId) (id : BlockId) : Option BlockId :=
  (g.visits (g.passesForMerge walls) g.searchFuel [id] (g.targets id)).find? g.isMerge

end Flowchart.Graph
