import Flowchart.Proofs.Code.Mirroring

/-!
# Blocks that cannot be come to

The code for a chart is made along the edges from the start block, and yet blocks that cannot be come to from there may
get into it.  Where the body of a loop with its test at the end begins is found by going through all the blocks that
test at the end of a loop; if such a block cannot be come to itself, but its true branch leads to one that can, then a
loop is opened there.

* `Graph.without` — the chart without some blocks, and without the edges at them.
* `Graph.Detached` — no block that tests at the end of a loop has its body among the live blocks, unless it is live.
* `Graph.Removable` — blocks that can be left out: they are not live, no end block is among them, and the loops of
  the chart are detached before and afterwards.
* `Graph.not_live_backToEntry`, `Graph.backToEntry_without` — the way back from a test: from a block that is not live it
  never comes to one that is, and among the live blocks it is the same in the chart that is left.
* **`Graph.Removable.sameCode`** — the code for a chart; **`Program.code_without`** — the code for a program.
* `deadTest_opens_loop` — what the code looks like otherwise.
-/

namespace Flowchart

namespace Graph

/-! ### Charts with fewer blocks -/

/-- The chart without the blocks that have some numbers, and without the edges that touch them. -/
def without (removed : BlockId → Bool) (g : Graph) : Graph where
  blocks := g.blocks.filter fun b => !removed b.id
  edges := g.edges.filter fun e => !removed e.source && !removed e.target

/-- The true branch of a block that tests at the end of a loop leads to a live block only if the test is live too. -/
def Detached (g : Graph) (live : BlockId → Prop) : Prop :=
  ∀ b ∈ g.blocks, b.kind = .doWhile → ¬live b.id → ∀ entry ∈ g.branchTarget? b.id .whenTrue, ¬live entry

/-- Some blocks of a chart can be left out. -/
structure Removable (g : Graph) (removed : BlockId → Bool) : Prop where
  dead : ∀ id, removed id = true → ¬g.Live id
  finish : ∀ b ∈ g.blocks, b.kind = .finish → removed b.id = false
  /-- No number of a live block is the number of another block. -/
  distinct : ∀ b ∈ g.blocks, ∀ c ∈ g.blocks, g.Live b.id → b.id = c.id → b = c
  before : g.Detached g.Live
  after : (g.without removed).Detached g.Live
  /-- If the true branch of a live test leads nowhere but to the test, the way back is followed, and no edge of a
  removed block may lie on it. -/
  selfTests : ∀ b ∈ g.blocks, b.kind = .doWhile → g.Live b.id →
    (g.branchTarget? b.id .whenTrue).filter (· != b.id) = none →
    ∀ e ∈ g.edges, removed e.source = true → ¬g.Live e.target

/-- If the first element that passes a test is kept, it is still the first one. -/
theorem find?_filter_of_kept {α : Type} {keep p : α → Bool} {l : List α}
    (h : ∀ a, l.find? p = some a → keep a = true) : (l.filter keep).find? p = l.find? p := by
  induction l with
  | nil => rfl
  | cons a l ih =>
    rw [List.find?_cons] at h
    cases hp : p a with
    | true =>
      rw [hp] at h
      rw [List.filter_cons_of_pos (h a rfl), List.find?_cons_of_pos hp, List.find?_cons_of_pos hp]
    | false =>
      rw [hp] at h
      have hno : ¬p a = true := Bool.eq_false_iff.mp hp
      rw [List.find?_cons_of_neg hno, ← ih h, List.filter_cons]
      split
      · rw [List.find?_cons_of_neg hno]
      · rfl

variable {g : Graph} {removed : BlockId → Bool}

/-- An edge that is left was there before. -/
theorem targets_without_subset (id : BlockId) : (g.without removed).targets id ⊆ g.targets id := by
  refine List.map_subset _ fun e he => ?_
  obtain ⟨hmem, hsource⟩ := List.mem_filter.mp he
  exact List.mem_filter.mpr ⟨(List.mem_filter.mp hmem).1, hsource⟩

/-- What is live is so for what is left, too. -/
theorem live_of_targets_without (id : BlockId) (hid : g.Live id) :
    ∀ target ∈ (g.without removed).targets id, g.Live target :=
  fun _ ht => .step hid (targets_without_subset id ht)

/-- Where an edge comes from, it leads to where it leads. -/
theorem mem_targets_of_mem_incoming {id previous : BlockId} (h : previous ∈ (g.incoming id).map Edge.source) :
    id ∈ g.targets previous := by
  obtain ⟨e, he, rfl⟩ := List.mem_map.mp h
  obtain ⟨hmem, htarget⟩ := List.mem_filter.mp he
  rw [beq_iff_eq] at htarget
  exact List.mem_map.mpr ⟨e, List.mem_filter.mpr ⟨hmem, beq_self_eq_true _⟩, htarget⟩

/-! ### The way back from a test -/

/-- **From a dead block the way back comes to dead blocks only**, since no edge leads from a live block to a dead
one. -/
theorem not_live_backToEntry {live : BlockId → Prop} (hclosed : ∀ id, live id → ∀ target ∈ g.targets id, live target)
    {test : BlockId} {fuel : Nat} {seen : List BlockId} {id entry : BlockId} (hid : ¬live id)
    (h : g.backToEntry test fuel seen id = some entry) : ¬live entry := by
  induction fuel generalizing seen id with
  | zero => cases h
  | succ fuel ih =>
    rw [backToEntry] at h
    split at h
    · cases h
    · split at h
      · exact Option.some.inj h ▸ hid
      · split at h
        · next previous hprevious =>
          have hdead : ¬live previous := fun hlive =>
            hid (hclosed previous hlive id (mem_targets_of_mem_incoming (List.mem_of_head? hprevious)))
          split at h
          · exact Option.some.inj h ▸ hid
          · exact ih hdead h
        · exact Option.some.inj h ▸ hid

/-- **In a detached chart the body of a dead test begins at a dead block**, if at any. -/
theorem Detached.not_live_entry {live : BlockId → Prop} (h : g.Detached live)
    (hclosed : ∀ id, live id → ∀ target ∈ g.targets id, live target) {b : Block} (hb : b ∈ g.blocks)
    (hkind : b.kind = .doWhile) (hdead : ¬live b.id) {entry : BlockId} (hentry : g.bodyEntry? b.id = some entry) :
    ¬live entry := by
  unfold bodyEntry? at hentry
  split at hentry
  · next hfirst =>
    cases hentry
    exact h b hb hkind hdead entry (Option.eq_some_of_filter_eq_some hfirst)
  · split at hentry
    · next last hlast =>
      have hsource := mem_targets_of_mem_incoming (List.mem_of_find?_eq_some hlast)
      have hdead' : ¬live last := fun hlive => hdead (hclosed last hlive b.id hsource)
      exact not_live_backToEntry hclosed hdead' hentry
    · cases hentry

/-- A block tests at the end of a loop whose body begins at a given block. -/
def closesAt (g : Graph) (entry : BlockId) (b : Block) : Bool :=
  b.kind == .doWhile && g.bodyEntry? b.id == some entry

theorem closesAt_iff {entry : BlockId} {b : Block} :
    g.closesAt entry b = true ↔ b.kind = .doWhile ∧ g.bodyEntry? b.id = some entry := by
  unfold closesAt
  rw [Bool.and_eq_true, beq_iff_eq, beq_iff_eq]

/-- The test of the loop that begins at a block is the last one whose body begins there. -/
theorem testAt?_eq (g : Graph) (entry : BlockId) :
    g.testAt? entry = (g.blocks.reverse.find? (g.closesAt entry)).map Block.id := by
  have hcloses : ∀ b : Block, decide ((b.kind == .doWhile) = true ∧
      ((g.bodyEntry? b.id).map (·, b.id)).any (·.1 == entry) = true) = g.closesAt entry b := by
    intro b
    unfold closesAt
    rw [Bool.decide_and, Bool.decide_eq_true, Bool.decide_eq_true, Option.any_map]
    cases g.bodyEntry? b.id <;> rfl
  unfold testAt? doLoops
  rw [← List.filterMap_reverse, ← List.filter_reverse, List.find?_filterMap, List.find?_filter,
    find?_congr_of_mem fun b _ => hcloses b]
  cases hfind : g.blocks.reverse.find? (g.closesAt entry) with
  | none => rfl
  | some b =>
    rw [Option.bind_some, (closesAt_iff.mp (List.find?_some hfind)).2]
    rfl

namespace Removable

variable (h : g.Removable removed)
include h

theorem kept {id : BlockId} (hid : g.Live id) : removed id = false :=
  Bool.eq_false_iff.mpr fun hremoved => h.dead id hremoved hid

theorem mem_without {b : Block} (hb : b ∈ g.blocks) (hid : g.Live b.id) : b ∈ (g.without removed).blocks :=
  List.mem_filter.mpr ⟨hb, by rw [h.kept hid]; rfl⟩

/-- A live block is found as before, although it may stand at another position. -/
theorem block?_without {id : BlockId} (hid : g.Live id) : (g.without removed).block? id = g.block? id := by
  have honly : ∀ b ∈ g.blocks, ∀ c ∈ g.blocks, b.id = id → c.id = id → b = c := by
    rintro b hb c hc rfl hid'
    exact h.distinct b hb c hc hid hid'.symm
  have honly' : ∀ b ∈ (g.without removed).blocks, ∀ c ∈ (g.without removed).blocks,
      b.id = id → c.id = id → b = c :=
    fun b hb c hc => honly b (List.mem_filter.mp hb).1 c (List.mem_filter.mp hc).1
  refine Option.ext fun b => ?_
  rw [block?_eq_some_iff honly, block?_eq_some_iff honly']
  refine and_congr_left ?_
  rintro rfl
  exact ⟨fun hb => (List.mem_filter.mp hb).1, fun hb => h.mem_without hb hid⟩

theorem outgoing_without {id : BlockId} (hid : g.Live id) : (g.without removed).outgoing id = g.outgoing id := by
  unfold outgoing without
  rw [List.filter_filter]
  refine List.filter_congr fun e he => ?_
  by_cases hsource : e.source = id
  · have htarget : g.Live e.target :=
      .step hid (List.mem_map_of_mem (List.mem_filter.mpr ⟨he, beq_iff_eq.mpr hsource⟩))
    rw [h.kept htarget, hsource, h.kept hid]
    exact Bool.and_true _
  · rw [beq_eq_false_iff_ne.mpr hsource]
    rfl

/-- The first start block is live, so it is left, and it is still the first. -/
theorem start?_without : (g.without removed).start? = g.start? := by
  have hkept : ∀ b, g.blocks.find? (·.kind == .start) = some b → removed b.id = false := by
    intro b hb
    refine h.kept (.start ?_)
    unfold start? firstOf?
    rw [hb]
    rfl
  unfold start? firstOf? without
  rw [find?_filter_of_kept fun b hb => by rw [hkept b hb]; rfl]

/-- **What is left** has the live part of the chart in it. -/
theorem mirrors : g.Mirrors id g.Live (g.without removed) where
  injective := Function.injective_id
  block i hi := (h.block?_without hi).trans (congrFun Option.map_id (g.block? i)).symm
  outgoing i hi := (h.outgoing_without hi).trans (List.map_id (g.outgoing i)).symm
  closed _ hi _ ht := .step hi ht
  start := h.start?_without.trans (congrFun Option.map_id g.start?).symm
  begins _ hi := .start hi

/-! ### Loops with their tests at the end -/

/-- Where no removed block has an edge to a live one, the edges that lead to a live block are left. -/
theorem incoming_without (hedges : ∀ e ∈ g.edges, removed e.source = true → ¬g.Live e.target) {id : BlockId}
    (hid : g.Live id) : (g.without removed).incoming id = g.incoming id := by
  unfold incoming without
  rw [List.filter_filter]
  refine List.filter_congr fun e he => ?_
  by_cases htarget : e.target = id
  · have hsource : removed e.source = false :=
      Bool.eq_false_iff.mpr fun hremoved => hedges e he hremoved (htarget ▸ hid)
    rw [hsource, htarget, h.kept hid]
    exact Bool.and_true _
  · rw [beq_eq_false_iff_ne.mpr htarget]
    rfl

/-- **The way back among live blocks is the same** in what is left: it comes to the same live blocks.  Each walk may
go on for as many rounds as there are blocks that it has not stood on. -/
theorem backToEntry_without (hedges : ∀ e ∈ g.edges, removed e.source = true → ¬g.Live e.target) {test : BlockId}
    {fuel fuel' : Nat} {seen : List BlockId} {id entry : BlockId} (hid : g.Live id) (hentry : g.Live entry)
    (hfuel : unused Block.id g.blocks seen < fuel)
    (hfuel' : unused Block.id (g.without removed).blocks seen < fuel') :
    (g.without removed).backToEntry test fuel' seen id = some entry ↔ g.backToEntry test fuel seen id = some entry := by
  induction fuel generalizing fuel' seen id with
  | zero => omega
  | succ fuel ih =>
    obtain ⟨fuel', rfl⟩ : ∃ n, fuel' = n + 1 := ⟨fuel' - 1, by omega⟩
    rw [backToEntry, backToEntry, h.block?_without hid, h.incoming_without hedges hid]
    cases hblock : g.block? id with
    | none => exact Iff.rfl
    | some b =>
      dsimp only
      by_cases hrest : b.kind = .merge ∨ id ∈ seen
      · rw [if_pos hrest, if_pos hrest]
      rw [if_neg hrest, if_neg hrest]
      cases hprevious : ((g.incoming id).map Edge.source).head? with
      | none => exact Iff.rfl
      | some previous =>
        dsimp only
        by_cases htest : previous = test
        · rw [if_pos htest, if_pos htest]
        rw [if_neg htest, if_neg htest]
        by_cases hlive : g.Live previous
        · obtain ⟨hmem, rfl⟩ := mem_of_block? hblock
          have hseen : b.id ∉ seen := fun hmem => hrest (.inr hmem)
          have hfewer := unused_cons_lt Block.id hmem hseen
          have hfewer' := unused_cons_lt Block.id (h.mem_without hmem hid) hseen
          exact ih hlive (by omega) (by omega)
        · -- From here on both walks stay among dead blocks.
          exact ⟨fun hfound => absurd hentry (not_live_backToEntry live_of_targets_without hlive hfound),
            fun hfound => absurd hentry (not_live_backToEntry (fun _ hid _ => .step hid) hlive hfound)⟩

/-- The body of a live test begins at the same live block, if at any. -/
theorem bodyEntry?_without {b : Block} (hb : b ∈ g.blocks) (hkind : b.kind = .doWhile) (hid : g.Live b.id)
    {entry : BlockId} (hentry : g.Live entry) :
    Graph.bodyEntry? (g.without removed) b.id = some entry ↔ g.bodyEntry? b.id = some entry := by
  have hbranch : (g.without removed).branchTarget? b.id .whenTrue = g.branchTarget? b.id .whenTrue :=
    (h.mirrors.branchTarget?_eq hid .whenTrue).trans (congrFun Option.map_id _)
  unfold bodyEntry?
  rw [hbranch]
  cases htrue : (g.branchTarget? b.id .whenTrue).filter (· != b.id) with
  | some first => exact Iff.rfl
  | none =>
    have hedges := h.selfTests b hb hkind hid htrue
    rw [h.incoming_without hedges hid]
    cases hlast : ((g.incoming b.id).map Edge.source).find? (· != b.id) with
    | none => exact Iff.rfl
    | some last =>
      dsimp only
      by_cases hlive : g.Live last
      · exact h.backToEntry_without hedges hlive hentry (Nat.lt_succ_of_le (unused_le_length _ _ _))
          (Nat.lt_succ_of_le (unused_le_length _ _ _))
      · exact ⟨fun hfound => absurd hentry (not_live_backToEntry live_of_targets_without hlive hfound),
          fun hfound => absurd hentry (not_live_backToEntry (fun _ hid _ => .step hid) hlive hfound)⟩

/-- **At a live block the same loop begins.**  Dead tests have their bodies among dead blocks, and the others have
them where they had them. -/
theorem testAt?_without {entry : BlockId} (hentry : g.Live entry) :
    (g.without removed).testAt? entry = g.testAt? entry := by
  have hblocks : (g.without removed).blocks.reverse = g.blocks.reverse.filter fun b => !removed b.id :=
    List.filter_reverse.symm
  have hcloses : ∀ b ∈ g.blocks,
      (!removed b.id && (g.without removed).closesAt entry b) = g.closesAt entry b := by
    intro b hb
    rw [Bool.eq_iff_iff, Bool.and_eq_true, closesAt_iff, closesAt_iff]
    by_cases hlive : g.Live b.id
    · rw [h.kept hlive]
      refine ⟨fun ⟨_, hkind, hbody⟩ => ⟨hkind, ?_⟩, fun ⟨hkind, hbody⟩ => ⟨rfl, hkind, ?_⟩⟩
      · exact (h.bodyEntry?_without hb hkind hlive hentry).mp hbody
      · exact (h.bodyEntry?_without hb hkind hlive hentry).mpr hbody
    · constructor
      · rintro ⟨hkept, hkind, hbody⟩
        have hmem : b ∈ (g.without removed).blocks := List.mem_filter.mpr ⟨hb, hkept⟩
        exact absurd hentry (h.after.not_live_entry live_of_targets_without hmem hkind hlive hbody)
      · rintro ⟨hkind, hbody⟩
        exact absurd hentry (h.before.not_live_entry (fun _ hid _ => .step hid) hb hkind hlive hbody)
  rw [testAt?_eq, testAt?_eq, hblocks, List.find?_filter]
  refine congrArg _ (find?_congr_of_mem fun b hb => ?_)
  rw [Bool.decide_and, Bool.decide_eq_true, Bool.decide_eq_true]
  exact hcloses b (List.mem_reverse.mp hb)

theorem mirrorsLoops : g.MirrorsLoops id g.Live (g.without removed) where
  testAt entry hentry := (h.testAt?_without hentry).trans (congrFun Option.map_id (g.testAt? entry)).symm
  test entry hentry test htest := by
    rw [testAt?_eq] at htest
    obtain ⟨b, hb, rfl⟩ := Option.map_eq_some_iff.mp htest
    obtain ⟨hkind, hbody⟩ := closesAt_iff.mp (List.find?_some hb)
    by_contra hdead
    have hmem := List.mem_reverse.mp (List.mem_of_find?_eq_some hb)
    exact h.before.not_live_entry (fun _ hid _ => .step hid) hmem hkind hdead hbody hentry

/-- **The code for a chart** is the same without the blocks that can be left out. -/
theorem sameCode : g.SameCode (g.without removed) := by
  refine h.mirrors.sameCode h.mirrorsLoops ?_
  have hfind : (g.without removed).blocks.find? (·.kind == .finish) = g.blocks.find? (·.kind == .finish) := by
    refine find?_filter_of_kept fun b hb => ?_
    rw [h.finish b (List.mem_of_find?_eq_some hb) (by simpa using List.find?_some hb)]
    rfl
  unfold finish? firstOf?
  rw [hfind]

end Removable

/-- Where nothing is left out, there is nothing to be seen to. -/
theorem sameCode_without (h : (∃ id, removed id = true) → g.Removable removed) : g.SameCode (g.without removed) := by
  by_cases hsome : ∃ id, removed id = true
  · exact (h hsome).sameCode
  · have hnone : ∀ id, removed id = false := fun id => Bool.eq_false_iff.mpr fun hid => hsome ⟨id, hid⟩
    have hsame : g.without removed = g := by
      unfold without
      simp only [hnone, Bool.not_false, Bool.and_self, List.filter_true]
    rw [hsame]
    exact g.mirrors_self.sameCode g.mirrorsLoops_self rfl

end Graph

/-! ### Programs -/

namespace Program

/-- The program without some blocks of the main chart, and without some blocks of each body, by the place of its
function. -/
def without (main : BlockId → Bool) (bodies : Nat → BlockId → Bool) (p : Program) : Program :=
  p.mapCharts (Graph.without main) fun i => Graph.without (bodies i)

/-- **The code for a program is the same without blocks that can be left out**, whatever can be chosen about the
code.  A chart from which nothing is taken away may be any chart. -/
theorem code_without (p : Program) {main : BlockId → Bool} (hmain : (∃ id, main id = true) → p.main.Removable main)
    {bodies : Nat → BlockId → Bool}
    (hbodies : ∀ (i : Nat) (f : Function), p.functions.functions[i]? = some f →
      (∃ id, bodies i id = true) → f.body.Removable (bodies i)) (style : CodeStyle) :
    (p.without main bodies).code style = p.code style :=
  code_mapCharts (Graph.sameCode_without hmain) (fun i f hf => Graph.sameCode_without (hbodies i f hf)) style

/-- A chart that has, apart from its live blocks, a loop that nobody comes to: it is left for the end block. -/
def deadLoop : Program where
  main :=
    { blocks := [⟨5, .assignment, "b = 1"⟩, ⟨6, .doWhile, "b < 9"⟩, ⟨0, .start, ""⟩, ⟨1, .assignment, "a = 1"⟩,
        ⟨2, .doWhile, "a < 5"⟩, ⟨3, .finish, ""⟩]
      edges := [⟨5, 6, none, none⟩, ⟨6, 5, none, some .whenTrue⟩, ⟨6, 3, none, some .whenFalse⟩,
        ⟨0, 1, none, none⟩, ⟨1, 2, none, none⟩, ⟨2, 1, none, some .whenTrue⟩, ⟨2, 3, none, some .whenFalse⟩] }

/-- The loop that nobody comes to can be left out. -/
theorem deadLoop_without : deadLoop.main.Removable (fun id => id == 5 || id == 6) ∧
    (deadLoop.without (fun id => id == 5 || id == 6) fun _ _ => false).code {} = deadLoop.code {} := by
  have hmain : deadLoop.main.Removable fun id => id == 5 || id == 6 :=
    { dead := by
        intro id hid
        rcases (Bool.or_eq_true _ _).mp hid with hid | hid
        · exact beq_iff_eq.mp hid ▸ (by decide : ¬deadLoop.main.Live 5)
        · exact beq_iff_eq.mp hid ▸ (by decide : ¬deadLoop.main.Live 6)
      finish := by decide
      distinct := by decide
      before := by unfold Graph.Detached; decide
      after := by unfold Graph.Detached; decide
      selfTests := by decide }
  exact ⟨hmain, code_without deadLoop (fun _ => hmain) (fun i f hf h => absurd h (by simp)) {}⟩

/-- A program in which a test that nobody comes to has its true branch lead to a live block. -/
def deadTest : Program where
  main :=
    { blocks := [⟨0, .start, ""⟩, ⟨1, .assignment, "a = 1"⟩, ⟨2, .finish, ""⟩, ⟨3, .doWhile, "a < 5"⟩]
      edges := [⟨0, 1, none, none⟩, ⟨1, 2, none, none⟩, ⟨3, 1, none, some .whenTrue⟩, ⟨3, 2, none, some .whenFalse⟩] }

/-- **A block that nobody comes to may get into the code**: here a loop is opened at a live block, with the condition of
the dead one. -/
theorem deadTest_opens_loop : deadTest.validate = .ok () ∧ ¬deadTest.main.Live 3 ∧
    (deadTest.without (· == 3) fun _ _ => false).code {} ≠ deadTest.code {} := by
  refine ⟨rfl, by decide, ?_⟩
  decide +kernel

end Program

end Flowchart
