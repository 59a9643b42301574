import Flowchart.Proofs.Code.Mirroring

/-!
# The code does not depend on the numbers of the blocks

A chart whose blocks are numbered in order is looked up in by position, and another one by a search through its
blocks; the searches along the edges, the loops with their tests at the end and the code itself keep lists of numbers.
None of them makes more of a number than to compare it with another one.

* `Graph.renumber` — the chart under other numbers, the blocks and the edges in the same order; an edge that leads to
  no block leads to none afterwards.
* `Graph.block?_renumber` — look-up.  Here it matters that no two blocks have one number: where two have, the position
  decides which of them is found.
* `Graph.backToEntry_renumber`, `Graph.doLoops_renumber` — the loops with their tests at the end.
* **`Graph.sameCode_renumber`** — a chart and the same chart under other numbers.
* **`Program.code_renumber`** — a program, every chart of it under numbers of its own.
-/

namespace Flowchart

namespace Graph

/-- The chart under other numbers. -/
def renumber (ρ : BlockId → BlockId) (g : Graph) : Graph where
  blocks := g.blocks.map (Block.renumber ρ)
  edges := g.edges.map (Edge.renumber ρ)

variable {g : Graph} {ρ : BlockId → BlockId}

/-! ### Look-up -/

theorem nodup_renumber (hρ : Function.Injective ρ) (hnodup : (g.blocks.map Block.id).Nodup) :
    ((g.renumber ρ).blocks.map Block.id).Nodup := by
  have hids : (g.renumber ρ).blocks.map Block.id = (g.blocks.map Block.id).map ρ := by
    unfold renumber
    rw [List.map_map, List.map_map]
    rfl
  rw [hids]
  exact hnodup.map hρ

theorem block?_renumber (hρ : Function.Injective ρ) (hnodup : (g.blocks.map Block.id).Nodup) (id : BlockId) :
    (g.renumber ρ).block? (ρ id) = (g.block? id).map (Block.renumber ρ) := by
  refine Option.ext fun b => ?_
  rw [block?_eq_some_iff_of_nodup (nodup_renumber hρ hnodup), Option.map_eq_some_iff]
  constructor
  · rintro ⟨hmem, hid⟩
    obtain ⟨a, ha, rfl⟩ := List.mem_map.mp hmem
    exact ⟨a, (block?_eq_some_iff_of_nodup hnodup).mpr ⟨ha, hρ hid⟩, rfl⟩
  · rintro ⟨a, ha, rfl⟩
    obtain ⟨hmem, rfl⟩ := mem_of_block? ha
    exact ⟨List.mem_map_of_mem hmem, rfl⟩

theorem firstOf?_renumber (kind : BlockKind) : (g.renumber ρ).firstOf? kind = (g.firstOf? kind).map ρ := by
  unfold firstOf? renumber
  rw [List.find?_map, Option.map_map, Option.map_map]
  rfl

/-! ### Edges -/

theorem beq_of_injective (hρ : Function.Injective ρ) (a b : BlockId) : (ρ a == ρ b) = (a == b) := by
  rw [Bool.eq_iff_iff, beq_iff_eq, beq_iff_eq, hρ.eq_iff]

theorem outgoing_renumber (hρ : Function.Injective ρ) (id : BlockId) :
    (g.renumber ρ).outgoing (ρ id) = (g.outgoing id).map (Edge.renumber ρ) := by
  unfold outgoing renumber
  rw [List.filter_map]
  refine congrArg _ (List.filter_congr fun e _ => ?_)
  exact beq_of_injective hρ e.source id

/-- The blocks from which edges lead to a block. -/
theorem sources_renumber (hρ : Function.Injective ρ) (id : BlockId) :
    ((g.renumber ρ).incoming (ρ id)).map Edge.source = ((g.incoming id).map Edge.source).map ρ := by
  have hincoming : (g.renumber ρ).incoming (ρ id) = (g.incoming id).map (Edge.renumber ρ) := by
    unfold incoming renumber
    rw [List.filter_map]
    refine congrArg _ (List.filter_congr fun e _ => ?_)
    exact beq_of_injective hρ e.target id
  rw [hincoming, List.map_map, List.map_map]
  rfl

/-- **The chart under other numbers** is the whole chart again. -/
theorem mirrors_renumber (hρ : Function.Injective ρ) (hnodup : (g.blocks.map Block.id).Nodup) :
    g.Mirrors ρ (fun _ => True) (g.renumber ρ) where
  injective := hρ
  block id _ := block?_renumber hρ hnodup id
  outgoing id _ := outgoing_renumber hρ id
  closed _ _ _ _ := trivial
  start := firstOf?_renumber .start
  begins _ _ := trivial

/-! ### Loops with their tests at the end -/

section Loops

variable (hρ : Function.Injective ρ) (hnodup : (g.blocks.map Block.id).Nodup)
include hρ hnodup

theorem backToEntry_renumber (test : BlockId) (fuel : Nat) (seen : List BlockId) (id : BlockId) :
    (g.renumber ρ).backToEntry (ρ test) fuel (seen.map ρ) (ρ id) = (g.backToEntry test fuel seen id).map ρ := by
  induction fuel generalizing seen id with
  | zero => rfl
  | succ fuel ih =>
    rw [backToEntry, backToEntry, block?_renumber hρ hnodup]
    cases g.block? id with
    | none => rfl
    | some b =>
      rw [Option.map_some]
      dsimp only
      have hrest : ((b.renumber ρ).kind = .merge ∨ ρ id ∈ seen.map ρ) ↔ (b.kind = .merge ∨ id ∈ seen) :=
        or_congr Iff.rfl (List.mem_map_of_injective hρ)
      rw [if_congr hrest rfl rfl, sources_renumber hρ, List.head?_map]
      split
      · rfl
      · cases ((g.incoming id).map Edge.source).head? with
        | none => rfl
        | some previous =>
          rw [Option.map_some]
          dsimp only
          rw [if_congr hρ.eq_iff rfl rfl]
          split
          · rfl
          · exact ih (id :: seen) previous

theorem bodyEntry?_renumber (test : BlockId) :
    Graph.bodyEntry? (g.renumber ρ) (ρ test) = (g.bodyEntry? test).map ρ := by
  have hother : (fun id => id != ρ test) ∘ ρ = fun id => id != test := by
    funext id
    exact congrArg (! ·) (beq_of_injective hρ id test)
  have htrue : ((g.renumber ρ).branchTarget? (ρ test) .whenTrue).filter (· != ρ test) =
      ((g.branchTarget? test .whenTrue).filter (· != test)).map ρ := by
    rw [(mirrors_renumber hρ hnodup).branchTarget?_eq trivial, Option.filter_map, hother]
  unfold bodyEntry?
  rw [htrue, sources_renumber hρ, List.find?_map, hother]
  cases (g.branchTarget? test .whenTrue).filter (· != test) with
  | some entry => rfl
  | none =>
    cases ((g.incoming test).map Edge.source).find? (· != test) with
    | none => rfl
    | some last =>
      have hlength : (g.renumber ρ).blocks.length = g.blocks.length := List.length_map _
      rw [Option.map_none, Option.map_some]
      dsimp only
      rw [hlength]
      exact backToEntry_renumber hρ hnodup test _ [test] last

theorem doLoops_renumber : (g.renumber ρ).doLoops = g.doLoops.map (Prod.map ρ ρ) := by
  unfold doLoops
  show ((g.blocks.map (Block.renumber ρ)).filter _).filterMap _ = _
  rw [List.filter_map, List.filterMap_map, List.map_filterMap]
  refine List.filterMap_congr fun b _ => ?_
  dsimp only [Function.comp_apply]
  show (Graph.bodyEntry? (g.renumber ρ) (ρ b.id)).map (·, ρ b.id) = _
  rw [bodyEntry?_renumber hρ hnodup, Option.map_map, Option.map_map]
  rfl

theorem mirrorsLoops_renumber : g.MirrorsLoops ρ (fun _ => True) (g.renumber ρ) where
  testAt id _ := by
    have hentry : (fun pair : BlockId × BlockId => pair.1 == ρ id) ∘ Prod.map ρ ρ = fun pair => pair.1 == id := by
      funext pair
      exact beq_of_injective hρ pair.1 id
    unfold testAt?
    rw [doLoops_renumber hρ hnodup, ← List.map_reverse, List.find?_map, hentry, Option.map_map, Option.map_map]
    rfl
  test _ _ _ _ := trivial

/-- **The code for a chart** is the same under other numbers. -/
theorem sameCode_renumber : g.SameCode (g.renumber ρ) := by
  refine (mirrors_renumber hρ hnodup).sameCode (mirrorsLoops_renumber hρ hnodup) ?_
  unfold finish?
  rw [firstOf?_renumber, Option.isSome_map]

end Loops

end Graph

/-! ### Programs -/

namespace Program

/-- The program with other numbers: those of the main chart, and those of each body by the place of its function. -/
def renumber (main : BlockId → BlockId) (bodies : Nat → BlockId → BlockId) (p : Program) : Program :=
  p.mapCharts (Graph.renumber main) fun i => Graph.renumber (bodies i)

/-- **The code for a program does not depend on the numbers of the blocks**, whatever can be chosen about the code.  In
each chart the blocks have different numbers, before and afterwards. -/
theorem code_renumber (p : Program) (hmain : (p.main.blocks.map Block.id).Nodup)
    (hfunctions : ∀ f ∈ p.functions.toList, (f.body.blocks.map Block.id).Nodup)
    {main : BlockId → BlockId} (hρ : Function.Injective main)
    {bodies : Nat → BlockId → BlockId} (hρs : ∀ i, Function.Injective (bodies i)) (style : CodeStyle) :
    (p.renumber main bodies).code style = p.code style :=
  code_mapCharts (Graph.sameCode_renumber hρ hmain)
    (fun i f hf => Graph.sameCode_renumber (hρs i) (hfunctions f (List.mem_of_getElem? hf))) style

/-- A program whose blocks are numbered in order.  The main chart has a loop with its test at the end, and an edge that
leads to no block. -/
def numberedInOrder : Program where
  main :=
    { blocks := [⟨0, .start, ""⟩, ⟨1, .functionCall, "a = f()"⟩, ⟨2, .doWhile, "a < 3"⟩, ⟨3, .finish, ""⟩]
      edges := [⟨0, 1, none, none⟩, ⟨1, 2, none, none⟩, ⟨2, 1, none, some .whenTrue⟩,
        ⟨2, 3, none, some .whenFalse⟩, ⟨2, 9, none, none⟩] }
  functions := .ofList
    [{ name := "f", returnType := .int, returnVariable := some "b"
       body := { blocks := [⟨0, .start, ""⟩, ⟨1, .assignment, "b = 4"⟩, ⟨2, .finish, ""⟩]
                 edges := [⟨0, 1, none, none⟩, ⟨1, 2, none, none⟩] } }]

/-- Under the new numbers no block stands at the position that is its number. -/
theorem numberedInOrder_renumber :
    (numberedInOrder.main.blocks.map Block.id).Nodup ∧
    (∀ f ∈ numberedInOrder.functions.toList, (f.body.blocks.map Block.id).Nodup) ∧
    Function.Injective (fun id : BlockId => 3 * id + 7) ∧
    (∀ i, Function.Injective fun id : BlockId => id + i + 5) ∧
    (numberedInOrder.renumber (fun id => 3 * id + 7) fun i id => id + i + 5).code {} = numberedInOrder.code {} := by
  have hmain : (numberedInOrder.main.blocks.map Block.id).Nodup := by decide
  have hfunctions : ∀ f ∈ numberedInOrder.functions.toList, (f.body.blocks.map Block.id).Nodup := by decide
  have hρ : Function.Injective fun id : BlockId => 3 * id + 7 :=
    fun _ _ h => Nat.eq_of_mul_eq_mul_left (by decide) (Nat.add_right_cancel h)
  have hρs : ∀ i, Function.Injective fun id : BlockId => id + i + 5 :=
    fun _ _ _ h => Nat.add_right_cancel (Nat.add_right_cancel h)
  exact ⟨hmain, hfunctions, hρ, hρs, code_renumber numberedInOrder hmain hfunctions hρ hρs {}⟩

end Program

end Flowchart
