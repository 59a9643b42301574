import Flowchart.Proofs.Code.Coverage

/-!
# Charts with the same code

The code for a chart depends on what can be come to from its start block, and the numbers of the blocks do not get
into it.  So two charts have the same code if one of them is to be found in the other, under whatever numbers.

* `Block.renumber`, `Edge.renumber`, `Code.renumber` — other numbers; `Code.lines_renumber`: the text has none.
* `Graph.Mirrors` — a chart repeats a part of another one that no edge leaves, with the start block in it.  The edges
  of a block (`Mirrors.targets_eq`, `Mirrors.branchTarget?_eq`), the searches along them (`Mirrors.breadthFirst_eq`,
  `Mirrors.nearestMerge?_eq`) and the types of variables (`Mirrors.typing_eq`) are then the same.
* `Graph.MirrorsLoops` — and so are the loops with their tests at the end.
* `Retells` — code comes out under other numbers; **`Mirrors.follow_retells`** is the induction on the rounds.
* **`Graph.Mirrors.same_body`** — the code for the two charts is the same.
* `Program.mapCharts`, **`Program.code_mapCharts`** — a program whose charts are exchanged for charts with the same
  code has the same code.
-/

namespace Flowchart

/-! ### Other numbers -/

/-- The block with another number. -/
def Block.renumber (ρ : BlockId → BlockId) (b : Block) : Block := { b with id := ρ b.id }

/-- The edge between blocks with other numbers. -/
def Edge.renumber (ρ : BlockId → BlockId) (e : Edge) : Edge := { e with source := ρ e.source, target := ρ e.target }

/-- What is read on a block does not depend on its number. -/
theorem Block.instruction_renumber (ρ : BlockId → BlockId) (b : Block) :
    (b.renumber ρ).instruction = b.instruction := rfl

namespace Code

/-- The code for blocks with other numbers. -/
def renumber (ρ : BlockId → BlockId) : Code → Code
  | done => done
  | plain id statements next => plain (ρ id) statements (next.renumber ρ)
  | ifThen id condition body next => ifThen (ρ id) condition (body.renumber ρ) (next.renumber ρ)
  | ifElse id condition body other next =>
    ifElse (ρ id) condition (body.renumber ρ) (other.renumber ρ) (next.renumber ρ)
  | loop id header body next => loop (ρ id) header (body.renumber ρ) (next.renumber ρ)
  | doLoop entry test condition body next =>
    doLoop (ρ entry) (ρ test) condition (body.renumber ρ) (next.renumber ρ)
  | emptyDo id condition next => emptyDo (ρ id) condition (next.renumber ρ)

/-- **The numbers of the blocks are not written.** -/
theorem lines_renumber (ρ : BlockId → BlockId) (depth : Nat) (c : Code) :
    (c.renumber ρ).lines depth = c.lines depth := by
  induction c generalizing depth with
  | done => rfl
  | plain id statements next ih => simp only [renumber, lines, ih]
  | ifThen id condition body next ihb ih => simp only [renumber, lines, ihb, ih]
  | ifElse id condition body other next ihb iho ih => simp only [renumber, lines, ihb, iho, ih]
  | loop id header body next ihb ih => simp only [renumber, lines, ihb, ih]
  | doLoop entry test condition body next ihb ih => simp only [renumber, lines, ihb, ih]
  | emptyDo id condition next ih => simp only [renumber, lines, ih]

theorem renumber_id (c : Code) : c.renumber id = c := by
  induction c with
  | done => rfl
  | plain _ statements next ih => simp only [renumber, id_eq, ih]
  | ifThen _ condition body next ihb ih => simp only [renumber, id_eq, ihb, ih]
  | ifElse _ condition body other next ihb iho ih => simp only [renumber, id_eq, ihb, iho, ih]
  | loop _ header body next ihb ih => simp only [renumber, id_eq, ihb, ih]
  | doLoop entry test condition body next ihb ih => simp only [renumber, id_eq, ihb, ih]
  | emptyDo _ condition next ih => simp only [renumber, id_eq, ih]

end Code

/-- The progress among blocks with other numbers. -/
def Progress.renumber (ρ : BlockId → BlockId) (p : Progress) : Progress :=
  { visited := p.visited.map ρ, opened := p.opened.map ρ }

theorem Progress.renumber_id (p : Progress) : p.renumber id = p := by
  unfold renumber
  rw [List.map_id, List.map_id]

/-! ### A part of a chart -/

/-- One chart repeats, under other numbers, the part of another one that some of its blocks make up.  The start block
is among them, and no edge leads from them to others. -/
structure Graph.Mirrors (g : Graph) (ρ : BlockId → BlockId) (within : BlockId → Prop) (g' : Graph) : Prop where
  injective : Function.Injective ρ
  block : ∀ id, within id → g'.block? (ρ id) = (g.block? id).map (Block.renumber ρ)
  outgoing : ∀ id, within id → g'.outgoing (ρ id) = (g.outgoing id).map (Edge.renumber ρ)
  closed : ∀ id, within id → ∀ target ∈ g.targets id, within target
  start : g'.start? = g.start?.map ρ
  begins : ∀ id, g.start? = some id → within id

namespace Graph

/-- A chart repeats itself. -/
theorem mirrors_self (g : Graph) : g.Mirrors id (fun _ => True) g where
  injective := Function.injective_id
  block i _ := (congrFun Option.map_id (g.block? i)).symm
  outgoing i _ := (List.map_id (g.outgoing i)).symm
  closed _ _ _ _ := trivial
  start := (congrFun Option.map_id g.start?).symm
  begins _ _ := trivial

namespace Mirrors

variable {g g' : Graph} {ρ : BlockId → BlockId} {within : BlockId → Prop}

/-! ### Edges -/

section Edges

variable (h : g.Mirrors ρ within g') {id : BlockId} (hid : within id)
include h hid

theorem targets_eq : g'.targets (ρ id) = (g.targets id).map ρ := by
  unfold targets
  rw [h.outgoing id hid, List.map_map, List.map_map]
  rfl

theorem successor?_eq : g'.successor? (ρ id) = (g.successor? id).map ρ := by
  unfold successor?
  rw [h.outgoing id hid, List.head?_map, Option.map_map, Option.map_map]
  rfl

theorem branchTarget?_eq (branch : Branch) :
    g'.branchTarget? (ρ id) branch = (g.branchTarget? id branch).map ρ := by
  have htagged : g'.taggedEdge? (ρ id) branch = (g.taggedEdge? id branch).map (Edge.renumber ρ) := by
    unfold taggedEdge?
    rw [h.outgoing id hid, List.find?_map]
    rfl
  have hlabelled : g'.labelledEdge? (ρ id) = Option.map (Edge.renumber ρ) ∘ g.labelledEdge? id := by
    funext label
    unfold labelledEdge?
    rw [h.outgoing id hid, List.find?_map]
    rfl
  unfold branchTarget? branchEdge?
  rw [htagged, hlabelled, ← List.map_findSome?, ← Option.map_or, Option.map_map, Option.map_map]
  rfl

/-- The same kind of block is found under the other number. -/
theorem any_block?_eq (p : BlockKind → Bool) :
    (g'.block? (ρ id)).any (fun b => p b.kind) = (g.block? id).any fun b => p b.kind := by
  rw [h.block id hid, Option.any_map]
  rfl

theorem within_successor {target : BlockId} (ht : g.successor? id = some target) : within target :=
  h.closed id hid target (mem_targets_of_successor ht)

theorem within_branchTarget {branch : Branch} {target : BlockId} (ht : g.branchTarget? id branch = some target) :
    within target :=
  h.closed id hid target (mem_targets_of_branchTarget ht)

end Edges

/-! ### Searches -/

section Searches

variable (h : g.Mirrors ρ within g')
include h

/-- **A search in the one chart is a search in the other**, as long as it goes on from the same blocks. -/
theorem searched {passes passes' : BlockId → Bool} (hpasses : ∀ id, within id → passes' (ρ id) = passes id)
    {seen queue visited : List BlockId} (hs : g.Searched passes seen queue visited)
    (hqueue : ∀ id ∈ queue, within id) :
    g'.Searched passes' (seen.map ρ) (queue.map ρ) (visited.map ρ) := by
  induction hs with
  | ends => exact .ends
  | passesOver hseen _ ih =>
    exact .passesOver (List.mem_map_of_mem hseen) (ih fun id hid => hqueue id (List.mem_cons_of_mem _ hid))
  | @visits seen queue visited first hfresh _ ih =>
    have hfirst := hqueue first List.mem_cons_self
    refine .visits ((List.mem_map_of_injective h.injective).not.mpr hfresh) ?_
    have hqueue' : queue.map ρ ++ (if passes' (ρ first) then g'.targets (ρ first) else []) =
        (queue ++ if passes first then g.targets first else []).map ρ := by
      rw [hpasses first hfirst, h.targets_eq hfirst, List.map_append]
      split <;> rfl
    rw [hqueue']
    refine ih fun next hnext => ?_
    rcases List.mem_append.mp hnext with hnext | hnext
    · exact hqueue next (List.mem_cons_of_mem _ hnext)
    · split at hnext
      · exact h.closed first hfirst next hnext
      · cases hnext

theorem breadthFirst_eq {start : BlockId} (hstart : within start) :
    g'.breadthFirst (ρ start) = (g.breadthFirst start).map ρ := by
  have hqueue : ∀ id ∈ [start], within id := fun id hid => List.mem_singleton.mp hid ▸ hstart
  have hsearched : g'.Searched (fun _ => true) ([].map ρ) ([start].map ρ) ((g.breadthFirst start).map ρ) :=
    h.searched (fun _ _ => rfl) (g.breadthFirst_searched start) hqueue
  exact (g'.breadthFirst_searched (ρ start)).unique hsearched

theorem within_breadthFirst {start : BlockId} (hstart : within start) : ∀ id ∈ g.breadthFirst start, within id :=
  (g.breadthFirst_searched start).forall (fun id hid _ => h.closed id hid)
    fun _ hid => List.mem_singleton.mp hid ▸ hstart

theorem contains_map (walls : List BlockId) (id : BlockId) : (walls.map ρ).contains (ρ id) = walls.contains id := by
  rw [Bool.eq_iff_iff, List.contains_iff_mem, List.contains_iff_mem, List.mem_map_of_injective h.injective]

/-- The closest merge block is the same. -/
theorem nearestMerge?_eq {id : BlockId} (hid : within id) (walls : List BlockId) :
    g'.nearestMerge? (walls.map ρ) (ρ id) = (g.nearestMerge? walls id).map ρ := by
  have hpasses : ∀ id, within id → g'.passesForMerge (walls.map ρ) (ρ id) = g.passesForMerge walls id := by
    intro id hid
    unfold passesForMerge
    rw [h.block id hid]
    cases g.block? id with
    | none => rfl
    | some b =>
      dsimp only [Option.map_some]
      rw [h.contains_map]
      rfl
  have hvisited := (g.mergeSearch_searched walls id).forall (fun id hid _ => h.closed id hid) (h.closed id hid)
  have hsearched := h.searched hpasses (g.mergeSearch_searched walls id) (h.closed id hid)
  rw [← h.targets_eq hid] at hsearched
  unfold nearestMerge?
  rw [(g'.mergeSearch_searched (walls.map ρ) (ρ id)).unique hsearched, List.find?_map]
  refine congrArg _ (find?_congr_of_mem fun merge hmerge => ?_)
  exact h.any_block?_eq (hvisited merge hmerge) (· == .merge)

theorem within_nearestMerge {id merge : BlockId} (hid : within id) {walls : List BlockId}
    (hm : g.nearestMerge? walls id = some merge) : within merge :=
  (g.mergeSearch_searched walls id).forall (fun id hid _ => h.closed id hid) (h.closed id hid) merge
    (List.mem_of_find?_eq_some hm)

/-! ### Types of variables -/

/-- The variables have the same types, in the same order. -/
theorem typing_eq {functions functions' : FunctionTable}
    (hcalls : Typing.ofCall functions' = Typing.ofCall functions) (parameters : List Parameter) :
    g'.typing functions' parameters = g.typing functions parameters := by
  have hnote : ∀ (t : Typing) (i : Instruction), t.note functions' i = t.note functions i := by
    intro t i
    cases i <;> simp only [Typing.note, Typing.ofExpression, hcalls]
  unfold Graph.typing
  rw [h.start]
  cases hstart : g.start? with
  | none => rfl
  | some start =>
    have hwithin := h.within_breadthFirst (h.begins start hstart)
    dsimp only [Option.map_some]
    rw [h.breadthFirst_eq (h.begins start hstart), List.foldl_map]
    refine List.foldl_ext _ _ _ fun t id hid => ?_
    unfold Typing.noteBlock
    have hread : Block.instruction ∘ Block.renumber ρ = Block.instruction := rfl
    rw [h.block id (hwithin id hid), Option.map_map, hread]
    cases (g.block? id).map Block.instruction with
    | none => rfl
    | some read =>
      cases read with
      | error f => rfl
      | ok i => exact hnote t i

end Searches

end Mirrors

end Graph

/-! ### Following the edges -/

/-- What has to be known about two charts of which one repeats a part of the other: the loops that begin at the blocks
of that part have their tests in it, and they are loops of both charts. -/
structure Recovery.Mirrors (r : Recovery) (ρ : BlockId → BlockId) (within : BlockId → Prop) (r' : Recovery) : Prop where
  graph : r.graph.Mirrors ρ within r'.graph
  typing : r'.typing = r.typing
  calls : Typing.ofCall r'.functions = Typing.ofCall r.functions
  testAt : ∀ id, within id → r'.testAt? (ρ id) = (r.testAt? id).map ρ
  test : ∀ id, within id → ∀ test, r.testAt? id = some test → within test

/-- If the one attempt comes to an end, so does the other, with the same code but for the numbers of the blocks. -/
def Retells (ρ : BlockId → BlockId) (o o' : Option (Code × Progress)) : Prop :=
  ∀ c q, o = some (c, q) → o' = some (c.renumber ρ, q.renumber ρ)

namespace Retells

variable {ρ : BlockId → BlockId} {o o' : Option (Code × Progress)}

theorem some {c c' : Code} {q q' : Progress} (hc : c' = c.renumber ρ) (hq : q' = q.renumber ρ) :
    Retells ρ (some (c, q)) (some (c', q')) := by
  rintro _ _ ⟨⟩
  rw [hc, hq]

/-- What follows is told again if it is so for the code that goes before. -/
theorem bind (h : Retells ρ o o') {f f' : Code × Progress → Option (Code × Progress)}
    (hf : ∀ c q, Retells ρ (f (c, q)) (f' (c.renumber ρ, q.renumber ρ))) : Retells ρ (o >>= f) (o' >>= f') := by
  intro c q hbind
  obtain ⟨⟨c₁, q₁⟩, ho, hrest⟩ := Option.bind_eq_some_iff.mp hbind
  rw [h c₁ q₁ ho]
  exact hf c₁ q₁ c q hrest

end Retells

namespace Recovery.Mirrors

variable {r r' : Recovery} {ρ : BlockId → BlockId} {within : BlockId → Prop} (h : r.Mirrors ρ within r')
include h

theorem statements_eq (i : Instruction) : r'.statements i = r.statements i := by
  have hscan : r'.scanStatement = r.scanStatement := by
    funext name
    unfold scanStatement
    rw [h.typing]
  cases i <;> simp only [statements, valueStatement, assignment, printStatement, Typing.ofExpression, hscan,
    h.typing, h.calls]

theorem testCondition_eq {test : BlockId} (htest : within test) :
    r'.testCondition (ρ test) = r.testCondition test := by
  unfold testCondition
  rw [h.graph.block test htest, Option.map_map]
  rfl

theorem afterChoice?_eq {id : BlockId} (hid : within id) (walls : List BlockId) :
    r'.afterChoice? (walls.map ρ) (ρ id) = (r.afterChoice? walls id).map ρ := by
  unfold afterChoice?
  rw [h.graph.nearestMerge?_eq hid]
  cases hmerge : r.graph.nearestMerge? walls id with
  | none => rfl
  | some merge => exact h.graph.successor?_eq (h.graph.within_nearestMerge hid hmerge)

theorem within_afterChoice {id target : BlockId} (hid : within id) {walls : List BlockId}
    (ht : r.afterChoice? walls id = some target) : within target := by
  obtain ⟨merge, hmerge, hnext⟩ := Option.bind_eq_some_iff.mp ht
  exact h.graph.within_successor (h.graph.within_nearestMerge hid hmerge) hnext

/-- The same loop is to be opened. -/
theorem testToOpen?_eq {id : BlockId} (hid : within id) (p : Progress) :
    r'.testToOpen? (ρ id) (p.renumber ρ) = (r.testToOpen? id p).map ρ := by
  unfold testToOpen? Progress.renumber
  rw [h.graph.contains_map]
  split
  · rfl
  · exact h.testAt id hid

theorem within_testToOpen {id test : BlockId} (hid : within id) {p : Progress} (ht : r.testToOpen? id p = some test) :
    within test := by
  unfold testToOpen? at ht
  split at ht
  · cases ht
  · exact h.test id hid test ht

/-- From the blocks of the part on, some rounds of the one recovery are told again by some rounds of the other. -/
def Agrees (r : Recovery) (ρ : BlockId → BlockId) (within : BlockId → Prop) (r' : Recovery) (n n' : Nat) : Prop :=
  ∀ (walls : List BlockId) (start : Option BlockId) (p : Progress), (∀ id, start = some id → within id) →
    Retells ρ (r.follow n walls start p) (r'.follow n' (walls.map ρ) (start.map ρ) (p.renumber ρ))

/-- A loop that is opened in the one chart is opened in the other. -/
theorem retells_opening {n n' : Nat} (hgo : Agrees r ρ within r' n n') {walls : List BlockId} {id test : BlockId}
    (hid : within id) {p : Progress} (hwall : ¬walls.contains id = true) (htest : r.testToOpen? id p = some test) :
    Retells ρ (r.follow (n + 1) walls (some id) p)
      (r'.follow (n' + 1) (walls.map ρ) (some (ρ id)) (p.renumber ρ)) := by
  have hwithin := h.within_testToOpen hid htest
  have hopen : r'.testToOpen? (ρ id) (p.renumber ρ) = some (ρ test) := by
    rw [h.testToOpen?_eq hid, htest]
    rfl
  have hwall' : ¬(walls.map ρ).contains (ρ id) = true := by rwa [h.graph.contains_map]
  rw [follow, follow, if_neg hwall, if_neg hwall', htest, hopen]
  dsimp only
  refine .bind (hgo (test :: walls) (some id) (p.openLoop id) fun _ hi => Option.some.inj hi ▸ hid) fun body p₁ => ?_
  dsimp only
  rw [h.graph.branchTarget?_eq hwithin]
  refine .bind (hgo walls _ (p₁.cover test) fun _ ht => h.graph.within_branchTarget hwithin ht) fun next q => ?_
  refine .some ?_ rfl
  rw [h.testCondition_eq hwithin]
  rfl

/-- Where no loop is opened, a block is covered in both charts, or none. -/
theorem retells_covering {n n' : Nat} (hgo : Agrees r ρ within r' n n') {walls : List BlockId} {id : BlockId}
    (hid : within id) {p : Progress} (hwall : ¬walls.contains id = true) (htest : r.testToOpen? id p = none) :
    Retells ρ (r.follow (n + 1) walls (some id) p)
      (r'.follow (n' + 1) (walls.map ρ) (some (ρ id)) (p.renumber ρ)) := by
  have hclosed : r'.testToOpen? (ρ id) (p.renumber ρ) = none := by
    rw [h.testToOpen?_eq hid, htest]
    rfl
  have hwall' : ¬(walls.map ρ).contains (ρ id) = true := by rwa [h.graph.contains_map]
  -- Where code may go on from the block.
  have hnext : ∀ q, Retells ρ (r.follow n walls (r.graph.successor? id) q)
      (r'.follow n' (walls.map ρ) (r'.graph.successor? (ρ id)) (q.renumber ρ)) := by
    intro q
    rw [h.graph.successor?_eq hid]
    exact hgo walls _ q fun _ => h.graph.within_successor hid
  have hbranch : ∀ walls branch q, Retells ρ (r.follow n walls (r.graph.branchTarget? id branch) q)
      (r'.follow n' (walls.map ρ) (r'.graph.branchTarget? (ρ id) branch) (q.renumber ρ)) := by
    intro walls branch q
    rw [h.graph.branchTarget?_eq hid]
    exact hgo walls _ q fun _ => h.graph.within_branchTarget hid
  have hafter : ∀ q, Retells ρ (r.follow n walls (r.afterChoice? walls id) q)
      (r'.follow n' (walls.map ρ) (r'.afterChoice? (walls.map ρ) (ρ id)) (q.renumber ρ)) := by
    intro q
    rw [h.afterChoice?_eq hid]
    exact hgo walls _ q fun _ => h.within_afterChoice hid
  have hcovered : (p.renumber ρ).visited.contains (ρ id) = p.visited.contains id := h.graph.contains_map _ _
  rw [follow, follow, if_neg hwall, if_neg hwall', htest, hclosed]
  dsimp only
  rw [hcovered, h.graph.block id hid]
  by_cases hvisited : p.visited.contains id = true
  · rw [if_pos hvisited, if_pos hvisited]
    exact .some rfl rfl
  rw [if_neg hvisited, if_neg hvisited]
  cases r.graph.block? id with
  | none => exact .some rfl rfl
  | some b =>
    rw [Option.map_some]
    dsimp only
    rw [b.instruction_renumber]
    cases b.instruction with
    | error reason => exact .bind (hnext (p.cover id)) fun next q => .some rfl rfl
    | ok i =>
      cases i with
      | finish => exact .some rfl rfl
      | choose condition =>
        refine .bind (hbranch walls .whenTrue (p.cover id)) fun body p₁ => ?_
        have hno := hbranch walls .whenFalse p₁
        dsimp only
        rw [h.graph.branchTarget?_eq hid] at hno ⊢
        cases hfalse : r.graph.branchTarget? id .whenFalse with
        | none => exact .bind (hafter p₁) fun next q => .some rfl rfl
        | some no =>
          rw [hfalse] at hno
          exact .bind hno fun other p₂ => .bind (hafter p₂) fun next q => .some rfl rfl
      | whileLoop condition | forLoop init condition increment =>
        exact .bind (hbranch (id :: walls) .whenTrue (p.cover id)) fun body p₁ =>
          .bind (hbranch walls .whenFalse p₁) fun next q => .some rfl rfl
      | doWhile condition => exact .bind (hbranch walls .whenFalse (p.cover id)) fun next q => .some rfl rfl
      | start | merge | assign | input | output | call =>
        refine .bind (hnext (p.cover id)) fun next q => .some ?_ rfl
        rw [h.statements_eq]
        rfl

/-- **The code is the same but for the numbers of the blocks**, from each block on of which the part has as many rounds
or more.  The induction is on the rounds; every piece of code is made from what the two charts have in common. -/
theorem follow_retells {n n' : Nat} (hn : n ≤ n') : Agrees r ρ within r' n n' := by
  induction n generalizing n' with
  | zero =>
    intro walls start p hstart c q hc
    cases hc
  | succ n ih =>
    obtain ⟨m, rfl⟩ : ∃ m, n' = m + 1 := ⟨n' - 1, by omega⟩
    have hgo : Agrees r ρ within r' n m := ih (by omega)
    intro walls start p hstart
    cases start with
    | none =>
      rw [follow, Option.map_none, follow]
      exact .some rfl rfl
    | some id =>
      have hid := hstart id rfl
      rw [Option.map_some]
      by_cases hwall : walls.contains id = true
      · rw [follow, follow, if_pos hwall, if_pos (by rwa [h.graph.contains_map])]
        exact .some rfl rfl
      cases htest : r.testToOpen? id p with
      | some test => exact h.retells_opening hgo hid hwall htest
      | none => exact h.retells_covering hgo hid hwall htest

end Recovery.Mirrors

/-- Code that is found in some rounds is found in more rounds. -/
theorem Recovery.follow_mono {r : Recovery} {n n' : Nat} (hn : n ≤ n') {walls : List BlockId}
    {start : Option BlockId} {p q : Progress} {c : Code} (h : r.follow n walls start p = some (c, q)) :
    r.follow n' walls start p = some (c, q) := by
  have hself : r.Mirrors id (fun _ => True) r :=
    ⟨r.graph.mirrors_self, rfl, rfl, fun i _ => (congrFun Option.map_id (r.testAt? i)).symm, fun _ _ _ _ => trivial⟩
  have hmore := hself.follow_retells hn walls start p (fun _ _ => trivial) c q h
  rwa [List.map_id, Option.map_id_apply, p.renumber_id, q.renumber_id, c.renumber_id] at hmore

/-! ### The code for a chart -/

/-- The test of the loop whose body begins at a block of a chart. -/
def Graph.testAt? (g : Graph) (id : BlockId) : Option BlockId := (g.doLoops.reverse.find? (·.1 == id)).map Prod.snd

/-- Of two charts of which one repeats a part of the other, the loops that begin at the blocks of that part have their
tests in it, and they are loops of both charts. -/
structure Graph.MirrorsLoops (g : Graph) (ρ : BlockId → BlockId) (within : BlockId → Prop) (g' : Graph) : Prop where
  testAt : ∀ id, within id → g'.testAt? (ρ id) = (g.testAt? id).map ρ
  test : ∀ id, within id → ∀ test, g.testAt? id = some test → within test

/-- One chart can be put in the place of the other: if it has a start block or an end block, the other one has too, and
the code for the two charts is the same. -/
structure Graph.SameCode (g g' : Graph) : Prop where
  start : g'.start?.isSome = g.start?.isSome
  finish : g'.finish?.isSome = g.finish?.isSome
  body : ∀ style functions functions' parameters, Typing.ofCall functions' = Typing.ofCall functions →
    g'.body style functions' parameters = g.body style functions parameters

theorem Graph.mirrorsLoops_self (g : Graph) : g.MirrorsLoops id (fun _ => True) g where
  testAt i _ := (congrFun Option.map_id (g.testAt? i)).symm
  test _ _ _ _ := trivial

namespace Graph.Mirrors

variable {g g' : Graph} {ρ : BlockId → BlockId} {within : BlockId → Prop}

/-- **A chart has the code of the part of another one that it repeats**, but for the numbers of the blocks. -/
theorem code_eq (h : g.Mirrors ρ within g') (hloops : g.MirrorsLoops ρ within g')
    {functions functions' : FunctionTable} (hcalls : Typing.ofCall functions' = Typing.ofCall functions)
    (typing : Typing) : g'.code functions' typing = (g.code functions typing).map (Code.renumber ρ) := by
  have hrecovery : (g.recovery functions typing).Mirrors ρ within (g'.recovery functions' typing) :=
    ⟨h, rfl, hcalls, hloops.testAt, hloops.test⟩
  obtain ⟨c, q, hcode, hc, -⟩ := g.exists_code functions typing
  obtain ⟨c', q', hcode', hc', -⟩ := g'.exists_code functions' typing
  -- The two charts may be allowed different numbers of rounds; both are found in the greater one.
  have hmore := hrecovery.follow_retells (Nat.le_max_left _ (g'.recovery functions' typing).fuel) [] g.start? {}
    h.begins c q hc
  rw [← h.start] at hmore
  have hmore' := Recovery.follow_mono (Nat.le_max_right (g.recovery functions typing).fuel _) hc'
  have hsame : (c', q') = (c.renumber ρ, q.renumber ρ) := Option.some.inj (hmore'.symm.trans hmore)
  rw [hcode', hcode, Option.map_some, (Prod.mk.inj hsame).1]

/-- The lines for the two charts are the same. -/
theorem same_body (h : g.Mirrors ρ within g') (hloops : g.MirrorsLoops ρ within g')
    {functions functions' : FunctionTable} (hcalls : Typing.ofCall functions' = Typing.ofCall functions)
    (style : CodeStyle) (parameters : List Parameter) :
    g'.body style functions' parameters = g.body style functions parameters := by
  obtain ⟨c, -, hcode, -⟩ := g.exists_code functions (g.typing functions parameters)
  have hcode' : g'.code functions' (g'.typing functions' parameters) = some (c.renumber ρ) := by
    rw [h.typing_eq hcalls, h.code_eq hloops hcalls, hcode, Option.map_some]
  rw [body_of_code hcode', body_of_code hcode, h.typing_eq hcalls, c.lines_renumber]

theorem sameCode (h : g.Mirrors ρ within g') (hloops : g.MirrorsLoops ρ within g')
    (hfinish : g'.finish?.isSome = g.finish?.isSome) : g.SameCode g' where
  start := by rw [h.start, Option.isSome_map]
  finish := hfinish
  body style _ _ parameters hcalls := h.same_body hloops hcalls style parameters

end Graph.Mirrors

/-! ### Programs -/

/-- The table with other charts for the bodies of its functions; the change may depend on the place of a function. -/
def FunctionTable.mapBodies (change : Nat → Graph → Graph) (table : FunctionTable) : FunctionTable :=
  { table with functions := table.functions.mapIdx fun i f => { f with body := change i f.body } }

/-- The program with other charts in the place of its own. -/
def Program.mapCharts (main : Graph → Graph) (bodies : Nat → Graph → Graph) (p : Program) : Program :=
  { main := main p.main, functions := p.functions.mapBodies bodies }

section Exchange

variable {bodies : Nat → Graph → Graph}

/-- What a call gives does not depend on the body that is run. -/
theorem Typing.ofCall_mapBodies (table : FunctionTable) :
    Typing.ofCall (table.mapBodies bodies) = Typing.ofCall table := by
  funext name
  unfold Typing.ofCall FunctionTable.get? FunctionTable.mapBodies
  cases table.places.get? name with
  | none => rfl
  | some place =>
    dsimp only [Option.bind_some]
    rw [List.getElem?_mapIdx]
    cases table.functions[place]? <;> rfl

/-- What is made from all functions of a table is the same if it is the same for each function with its new body. -/
theorem FunctionTable.map_mapBodies {α : Type} {make make' : Function → α} {table : FunctionTable}
    (h : ∀ (i : Nat) (f : Function), table.functions[i]? = some f →
      make' { f with body := bodies i f.body } = make f) :
    (table.mapBodies bodies).toList.map make' = table.toList.map make := by
  refine List.ext_getElem? fun i => ?_
  unfold FunctionTable.toList FunctionTable.mapBodies
  rw [List.getElem?_map, List.getElem?_map, List.getElem?_mapIdx]
  cases hf : table.functions[i]? with
  | none => rfl
  | some f => exact congrArg some (h i f hf)

namespace Program

variable {p : Program} {main : Graph → Graph}

/-- The prototypes are made from what is declared, for the functions that can be run. -/
theorem prototypes_mapCharts (h : ∀ (i : Nat) (f : Function), p.functions.functions[i]? = some f →
      f.body.SameCode (bodies i f.body)) : (p.mapCharts main bodies).prototypes = p.prototypes := by
  let declare : Function → Bool × Line := fun f => (f.isComplete, ⟨0, f.signature ++ ";".toList⟩)
  have hdeclare : (p.mapCharts main bodies).functions.toList.map declare = p.functions.toList.map declare := by
    refine FunctionTable.map_mapBodies fun i f hf => ?_
    refine Prod.ext ?_ rfl
    show ((bodies i f.body).start?.isSome && (bodies i f.body).finish?.isSome) = f.isComplete
    rw [(h i f hf).start, (h i f hf).finish]
    rfl
  -- The functions that can be run, with their declarations.
  have hcomplete : ∀ fs : List Function, (fs.filter Function.isComplete).map (fun f => (declare f).2) =
      ((fs.map declare).filter Prod.fst).map Prod.snd := by
    intro fs
    rw [List.filter_map, List.map_map]
    rfl
  have hsame := (hcomplete _).trans ((congrArg (fun l => (l.filter Prod.fst).map Prod.snd) hdeclare).trans
    (hcomplete _).symm)
  have hempty : ∀ fs : List Function, fs.isEmpty = (fs.map fun f => (declare f).2).isEmpty :=
    fun _ => List.isEmpty_map.symm
  unfold prototypes
  dsimp only
  rw [hempty, hsame, ← hempty]

/-- **A program whose charts are exchanged for charts with the same code has the same code.** -/
theorem code_mapCharts (hmain : p.main.SameCode (main p.main))
    (hbodies : ∀ (i : Nat) (f : Function), p.functions.functions[i]? = some f →
      f.body.SameCode (bodies i f.body)) (style : CodeStyle) :
    (p.mapCharts main bodies).code style = p.code style := by
  have hcalls : Typing.ofCall (p.mapCharts main bodies).functions = Typing.ofCall p.functions :=
    Typing.ofCall_mapBodies p.functions
  have hfunctions : (p.mapCharts main bodies).functionLines style = p.functionLines style := by
    unfold functionLines
    rw [List.flatMap_def, List.flatMap_def]
    refine congrArg List.flatten (FunctionTable.map_mapBodies fun i f hf => ?_)
    have hcomplete : Function.isComplete { f with body := bodies i f.body } = f.isComplete := by
      unfold Function.isComplete
      rw [(hbodies i f hf).start, (hbodies i f hf).finish]
    unfold Function.code
    rw [hcomplete]
    dsimp only
    rw [(hbodies i f hf).body style _ _ f.parameters hcalls]
    rfl
  have hlines : (p.mapCharts main bodies).mainLines style = p.mainLines style := by
    unfold mainLines
    rw [← hmain.body style _ _ [] hcalls]
    rfl
  have hstart : (p.mapCharts main bodies).main.start?.isSome = p.main.start?.isSome := hmain.start
  have hfinish : (p.mapCharts main bodies).main.finish?.isSome = p.main.finish?.isSome := hmain.finish
  unfold code codeLines
  rw [hfunctions, prototypes_mapCharts hbodies, hlines, hstart, hfinish]

end Program

end Exchange

end Flowchart
