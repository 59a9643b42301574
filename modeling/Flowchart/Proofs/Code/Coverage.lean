import Flowchart.Code.Program
import Flowchart.Proofs.Code.Searches
import Flowchart.Proofs.Script.Following

/-!
# What the code for a chart covers

On a chart whose edges lead anywhere, the code from a block on is found all the same, and no block gets into it
twice.  A block is covered only if it was not covered before, a loop with its test at the end is opened only if it
was not opened before, and one of the two has to happen for the recovery to go on.

* `Code.loops`, `Code.emptyTests`, `Code.conditions` — the loops with their tests at the end that code holds, and
  the tests whose conditions it holds.
* `Recovery.Unfolds` — how code comes out of following the edges, one rule for each piece of code, wherever the
  edges lead.  **`Recovery.follow_unfolds`** says that following the edges comes to its end, and that the code
  comes out in this way.
* `Adds` — numbers that are noted, each for the first time; **`Recovery.Unfolds.adds`** is the invariant: the
  blocks of the code are covered by it for the first time, and its loops opened.
* `Graph.exists_code`, `Graph.body_of_code` — there is code for every chart, and it is printed.
* **`Graph.body_ends`** — the code for any chart.
-/

namespace Flowchart

/-! ### Loops with their tests at the end -/

namespace Code

/-- The loops with a body and the test at its end: where the body begins, and the block that tests. -/
def loops : Code → List (BlockId × BlockId)
  | done => []
  | plain _ _ next => next.loops
  | ifThen _ _ body next => body.loops ++ next.loops
  | ifElse _ _ body other next => body.loops ++ other.loops ++ next.loops
  | loop _ _ body next => body.loops ++ next.loops
  | doLoop entry test _ body next => (entry, test) :: body.loops ++ next.loops
  | emptyDo _ _ next => next.loops

/-- The tests at the ends of loops without a body. -/
def emptyTests : Code → List BlockId
  | done => []
  | plain _ _ next => next.emptyTests
  | ifThen _ _ body next => body.emptyTests ++ next.emptyTests
  | ifElse _ _ body other next => body.emptyTests ++ other.emptyTests ++ next.emptyTests
  | loop _ _ body next => body.emptyTests ++ next.emptyTests
  | doLoop _ _ _ body next => body.emptyTests ++ next.emptyTests
  | emptyDo id _ next => id :: next.emptyTests

/-- The blocks whose conditions stand at the ends of loops, each as often as its condition is written. -/
def conditions : Code → List BlockId
  | done => []
  | plain _ _ next => next.conditions
  | ifThen _ _ body next => body.conditions ++ next.conditions
  | ifElse _ _ body other next => body.conditions ++ other.conditions ++ next.conditions
  | loop _ _ body next => body.conditions ++ next.conditions
  | doLoop _ test _ body next => body.conditions ++ test :: next.conditions
  | emptyDo id _ next => id :: next.conditions

theorem map_fst_loops (c : Code) : c.loops.map Prod.fst = c.entries := by
  induction c with
  | done => rfl
  | plain id statements next ih => exact ih
  | ifThen id condition body next ihb ih => simp only [loops, entries, List.map_append, ihb, ih]
  | ifElse id condition body other next ihb iho ih => simp only [loops, entries, List.map_append, ihb, iho, ih]
  | loop id header body next ihb ih => simp only [loops, entries, List.map_append, ihb, ih]
  | doLoop entry test condition body next ihb ih =>
    simp only [loops, entries, List.cons_append, List.map_cons, List.map_append, ihb, ih]
  | emptyDo id condition next ih => exact ih

/-- A loop without a body stands for the block that tests. -/
theorem emptyTests_sublist (c : Code) : c.emptyTests.Sublist c.blocks := by
  induction c with
  | done => exact .slnil
  | plain id statements next ih => exact ih.cons id
  | ifThen id condition body next ihb ih => exact (ihb.append ih).cons id
  | ifElse id condition body other next ihb iho ih => exact ((ihb.append iho).append ih).cons id
  | loop id header body next ihb ih => exact (ihb.append ih).cons id
  | doLoop entry test condition body next ihb ih => exact ihb.append ih
  | emptyDo id condition next ih => exact ih.cons_cons id

/-- A condition is written for loops with a body and for loops without. -/
theorem count_conditions (id : BlockId) (c : Code) :
    c.conditions.count id = (c.loops.map Prod.snd).count id + c.emptyTests.count id := by
  induction c with
  | done => rfl
  | plain _ statements next ih => exact ih
  | ifThen _ condition body next ihb ih =>
    simp only [conditions, loops, emptyTests, List.map_append, List.count_append, ihb, ih]
    omega
  | ifElse _ condition body other next ihb iho ih =>
    simp only [conditions, loops, emptyTests, List.map_append, List.count_append, ihb, iho, ih]
    omega
  | loop _ header body next ihb ih =>
    simp only [conditions, loops, emptyTests, List.map_append, List.count_append, ihb, ih]
    omega
  | doLoop entry test condition body next ihb ih =>
    simp only [conditions, loops, emptyTests, List.cons_append, List.map_cons, List.map_append, List.count_append,
      List.count_cons, ihb, ih]
    omega
  | emptyDo test condition next ih =>
    simp only [conditions, loops, emptyTests, List.count_cons, ih]
    omega

end Code

/-! ### Numbers that are noted once -/

/-- Numbers are noted, each of them for the first time, and others may be noted besides. -/
structure Adds (new before after : List BlockId) : Prop where
  nodup : new.Nodup
  fresh : ∀ id ∈ new, id ∉ before
  noted : ∀ id ∈ new, id ∈ after
  mono : before ⊆ after

namespace Adds

variable {new later before mid after : List BlockId} {id : BlockId}

theorem refl (before : List BlockId) : Adds [] before before :=
  ⟨List.nodup_nil, fun _ h => absurd h List.not_mem_nil, fun _ h => absurd h List.not_mem_nil, fun _ h => h⟩

/-- What is noted afterwards is not what was noted before. -/
theorem append (h : Adds new before mid) (h' : Adds later mid after) : Adds (new ++ later) before after where
  nodup := by
    refine List.nodup_append.mpr ⟨h.nodup, h'.nodup, ?_⟩
    rintro a ha _ hb rfl
    exact h'.fresh a hb (h.noted a ha)
  fresh a ha := by
    rcases List.mem_append.mp ha with ha | ha
    · exact h.fresh a ha
    · exact fun hmem => h'.fresh a ha (h.mono hmem)
  noted a ha := by
    rcases List.mem_append.mp ha with ha | ha
    · exact h'.mono (h.noted a ha)
    · exact h'.noted a ha
  mono := fun _ ha => h'.mono (h.mono ha)

/-- A number that is noted besides. -/
theorem of_cons (h : Adds new (id :: before) after) : Adds new before after where
  nodup := h.nodup
  fresh a ha hmem := h.fresh a ha (List.mem_cons_of_mem id hmem)
  noted := h.noted
  mono := fun _ ha => h.mono (List.mem_cons_of_mem id ha)

theorem cons (hid : id ∉ before) (h : Adds new (id :: before) after) : Adds (id :: new) before after where
  nodup := List.nodup_cons.mpr ⟨fun hmem => h.fresh id hmem List.mem_cons_self, h.nodup⟩
  fresh a ha := by
    rcases List.mem_cons.mp ha with rfl | ha
    · exact hid
    · exact h.of_cons.fresh a ha
  noted a ha := by
    rcases List.mem_cons.mp ha with rfl | ha
    · exact h.mono List.mem_cons_self
    · exact h.noted a ha
  mono := h.of_cons.mono

end Adds

namespace Recovery

variable {r : Recovery} {walls : List BlockId} {p q p₁ p₂ : Progress} {id : BlockId}

/-! ### How code comes out -/

/-- How code comes out of following the edges: the walls, the block from which on the code is wanted, the progress
before, the code, and the progress after.  Where an edge leads, or whether it leads anywhere, makes no difference
to what is said here, so it is left open. -/
inductive Unfolds (r : Recovery) : List BlockId → Option BlockId → Progress → Code → Progress → Prop where
  /-- The path ends, or it leads to a wall or to a block that was covered. -/
  | rests {walls : List BlockId} {id : Option BlockId} {p : Progress} : Unfolds r walls id p .done p
  /-- The path leads to a block that does not exist. -/
  | misses {walls : List BlockId} {id : BlockId} {p : Progress} : Unfolds r walls (some id) p .done (p.cover id)
  /-- A loop is opened where its body begins, with its test as a wall; behind the body the test counts as covered. -/
  | opens {walls : List BlockId} {id test : BlockId} {target : Option BlockId} {p p₁ q : Progress} {body next : Code}
      (hfresh : id ∉ p.opened) (hloop : (id, test) ∈ r.doLoops)
      (hbody : Unfolds r (test :: walls) (some id) (p.openLoop id) body p₁)
      (hnext : Unfolds r walls target (p₁.cover test) next q) :
      Unfolds r walls (some id) p (.doLoop id test (r.testCondition test) body next) q
  | plain {walls : List BlockId} {id : BlockId} {target : Option BlockId} {statements : List Statement}
      {p q : Progress} {next : Code} (hfresh : id ∉ p.visited)
      (hnext : Unfolds r walls target (p.cover id) next q) :
      Unfolds r walls (some id) p (.plain id statements next) q
  | ifThen {walls : List BlockId} {id : BlockId} {yes after : Option BlockId} {condition : Text}
      {p p₁ q : Progress} {body next : Code} (hfresh : id ∉ p.visited)
      (hbody : Unfolds r walls yes (p.cover id) body p₁) (hnext : Unfolds r walls after p₁ next q) :
      Unfolds r walls (some id) p (.ifThen id condition body next) q
  | ifElse {walls : List BlockId} {id : BlockId} {yes no after : Option BlockId} {condition : Text}
      {p p₁ p₂ q : Progress} {body other next : Code} (hfresh : id ∉ p.visited)
      (hbody : Unfolds r walls yes (p.cover id) body p₁) (hother : Unfolds r walls no p₁ other p₂)
      (hnext : Unfolds r walls after p₂ next q) :
      Unfolds r walls (some id) p (.ifElse id condition body other next) q
  | loop {walls : List BlockId} {id : BlockId} {yes no : Option BlockId} {header : Text} {p p₁ q : Progress}
      {body next : Code} (hfresh : id ∉ p.visited) (hbody : Unfolds r (id :: walls) yes (p.cover id) body p₁)
      (hnext : Unfolds r walls no p₁ next q) : Unfolds r walls (some id) p (.loop id header body next) q
  /-- A test is reached, but not by way of the body that it belongs to. -/
  | emptyDo {walls : List BlockId} {id : BlockId} {no : Option BlockId} {condition : Text} {p q : Progress}
      {next : Code} (hfresh : id ∉ p.visited) (hnext : Unfolds r walls no (p.cover id) next q) :
      Unfolds r walls (some id) p (.emptyDo id condition next) q

/-- **What code covers, it covers for the first time**, and so it is with the loops that it opens; every one of
these is a loop of the chart. -/
theorem Unfolds.adds {start : Option BlockId} {c : Code} (h : Unfolds r walls start p c q) :
    Adds c.blocks p.visited q.visited ∧ Adds c.entries p.opened q.opened ∧ ∀ pair ∈ c.loops, pair ∈ r.doLoops := by
  induction h with
  | rests => exact ⟨.refl _, .refl _, fun _ h => absurd h List.not_mem_nil⟩
  | misses => exact ⟨(Adds.refl _).of_cons, .refl _, fun _ h => absurd h List.not_mem_nil⟩
  | opens hfresh hloop _ _ ihb ih =>
    obtain ⟨hblocks, hentries, hloops⟩ := ihb
    obtain ⟨hblocks', hentries', hloops'⟩ := ih
    refine ⟨hblocks.append hblocks'.of_cons, (hentries.append hentries').cons hfresh, ?_⟩
    intro pair hpair
    rcases List.mem_cons.mp hpair with rfl | hpair
    · exact hloop
    · exact (List.mem_append.mp hpair).elim (hloops pair) (hloops' pair)
  | plain hfresh _ ih => exact ⟨ih.1.cons hfresh, ih.2⟩
  | ifThen hfresh _ _ ihb ih =>
    obtain ⟨hblocks, hentries, hloops⟩ := ihb
    obtain ⟨hblocks', hentries', hloops'⟩ := ih
    refine ⟨(hblocks.append hblocks').cons hfresh, hentries.append hentries', ?_⟩
    exact fun pair hpair => (List.mem_append.mp hpair).elim (hloops pair) (hloops' pair)
  | ifElse hfresh _ _ _ ihb iho ih =>
    obtain ⟨hblocks, hentries, hloops⟩ := ihb
    obtain ⟨hblocks', hentries', hloops'⟩ := iho
    obtain ⟨hblocks'', hentries'', hloops''⟩ := ih
    refine ⟨((hblocks.append hblocks').append hblocks'').cons hfresh,
      (hentries.append hentries').append hentries'', ?_⟩
    intro pair hpair
    rcases List.mem_append.mp hpair with hpair | hpair
    · exact (List.mem_append.mp hpair).elim (hloops pair) (hloops' pair)
    · exact hloops'' pair hpair
  | loop hfresh _ _ ihb ih =>
    obtain ⟨hblocks, hentries, hloops⟩ := ihb
    obtain ⟨hblocks', hentries', hloops'⟩ := ih
    refine ⟨(hblocks.append hblocks').cons hfresh, hentries.append hentries', ?_⟩
    exact fun pair hpair => (List.mem_append.mp hpair).elim (hloops pair) (hloops' pair)
  | emptyDo hfresh _ ih => exact ⟨ih.1.cons hfresh, ih.2⟩

/-! ### Following the edges comes to its end -/

/-- How much is left to be done: blocks that are not covered, and loops that are not opened. -/
def remaining (r : Recovery) (p : Progress) : Nat :=
  unused Block.id r.graph.blocks p.visited + unused Prod.fst r.doLoops p.opened

/-- Behind a piece of code no more is left than before it. -/
theorem Unfolds.remaining_le {start : Option BlockId} {c : Code} (h : Unfolds r walls start p c q) :
    r.remaining q ≤ r.remaining p := by
  obtain ⟨hblocks, hentries, -⟩ := h.adds
  exact Nat.add_le_add (unused_mono _ _ hblocks.mono) (unused_mono _ _ hentries.mono)

theorem remaining_cover_le (id : BlockId) (p : Progress) : r.remaining (p.cover id) ≤ r.remaining p :=
  Nat.add_le_add_right (unused_mono _ _ (List.subset_cons_self _ _)) _

/-- To cover a block leaves less to be done. -/
theorem remaining_cover_lt {b : Block} (hb : r.graph.block? id = some b) (hfresh : id ∉ p.visited) :
    r.remaining (p.cover id) < r.remaining p := by
  obtain ⟨hmem, rfl⟩ := Graph.mem_of_block? hb
  exact Nat.add_lt_add_right (unused_cons_lt Block.id hmem hfresh) _

/-- To open a loop leaves less to be done. -/
theorem remaining_openLoop_lt {test : BlockId} (hloop : (id, test) ∈ r.doLoops) (hfresh : id ∉ p.opened) :
    r.remaining (p.openLoop id) < r.remaining p :=
  Nat.add_lt_add_left (unused_cons_lt Prod.fst hloop hfresh) _

/-- A loop that is to be opened is one of the chart, and it was not opened before. -/
theorem mem_of_testToOpen? {test : BlockId} (h : r.testToOpen? id p = some test) :
    id ∉ p.opened ∧ (id, test) ∈ r.doLoops := by
  unfold testToOpen? at h
  split at h
  · cases h
  · next hopened =>
    obtain ⟨pair, hfind, rfl⟩ := Option.map_eq_some_iff.mp h
    have hkey : pair.1 = id := by simpa using List.find?_some hfind
    have hmem := List.mem_reverse.mp (List.mem_of_find?_eq_some hfind)
    refine ⟨by simpa using hopened, ?_⟩
    rw [← hkey]
    exact hmem

/-- From a block on, following the edges for some rounds comes to its end. -/
def Ends (r : Recovery) (n : Nat) (walls : List BlockId) (start : Option BlockId) (p : Progress) : Prop :=
  ∃ c q, r.follow n walls start p = some (c, q) ∧ Unfolds r walls start p c q

/-- A loop that is opened comes to its end, if its body does and what follows it. -/
theorem ends_opening {n : Nat} {test : BlockId} (hwall : ¬walls.contains id = true)
    (htest : r.testToOpen? id p = some test)
    (go : ∀ walls start p₁, r.remaining p₁ ≤ r.remaining (p.openLoop id) → r.Ends n walls start p₁) :
    r.Ends (n + 1) walls (some id) p := by
  obtain ⟨hfresh, hloop⟩ := mem_of_testToOpen? htest
  obtain ⟨body, p₁, hbody, hbody'⟩ := go (test :: walls) (some id) _ (Nat.le_refl _)
  obtain ⟨next, q, hnext, hnext'⟩ := go walls (r.graph.branchTarget? test .whenFalse) (p₁.cover test)
    (Nat.le_trans (remaining_cover_le test p₁) hbody'.remaining_le)
  refine ⟨_, q, ?_, .opens hfresh hloop hbody' hnext'⟩
  unfold Progress.openLoop at hbody
  rw [follow, if_neg hwall, htest]
  dsimp only
  rw [hbody]
  show (r.follow n walls (r.graph.branchTarget? test .whenFalse) (p₁.cover test) >>= _) = _
  rw [hnext]
  rfl

/-- A block that is covered comes to its end, whatever is read on it, if what is behind its edges does. -/
theorem ends_covering {n : Nat} {b : Block} (hwall : ¬walls.contains id = true) (htest : r.testToOpen? id p = none)
    (hvisited : ¬p.visited.contains id = true) (hb : r.graph.block? id = some b)
    (go : ∀ walls start p₁, r.remaining p₁ ≤ r.remaining (p.cover id) → r.Ends n walls start p₁) :
    r.Ends (n + 1) walls (some id) p := by
  have hfresh : id ∉ p.visited := by simpa using hvisited
  unfold Ends
  rw [follow, if_neg hwall, htest]
  dsimp only
  rw [if_neg hvisited, hb]
  dsimp only
  unfold Progress.cover Ends at go
  cases b.instruction with
  | error fault =>
    obtain ⟨next, q, hnext, hnext'⟩ := go walls (r.graph.successor? id) _ (Nat.le_refl _)
    dsimp only
    rw [hnext]
    exact ⟨_, q, rfl, .plain hfresh hnext'⟩
  | ok i =>
    cases i with
    | finish =>
      have hrests : Unfolds r walls none (p.cover id) .done (p.cover id) := .rests
      exact ⟨_, p.cover id, rfl, .plain hfresh hrests⟩
    | choose condition =>
      obtain ⟨body, p₁, hbody, hbody'⟩ := go walls (r.graph.branchTarget? id .whenTrue) _ (Nat.le_refl _)
      have hle := hbody'.remaining_le
      dsimp only
      rw [hbody]
      cases r.graph.branchTarget? id .whenFalse with
      | none =>
        obtain ⟨next, q, hnext, hnext'⟩ := go walls (r.afterChoice? walls id) p₁ hle
        refine ⟨.ifThen id (Code.condition condition) body next, q, ?_, .ifThen hfresh hbody' hnext'⟩
        show (r.follow n walls (r.afterChoice? walls id) p₁ >>= _) = _
        rw [hnext]
        rfl
      | some no =>
        obtain ⟨other, p₂, hother, hother'⟩ := go walls (some no) p₁ hle
        obtain ⟨next, q, hnext, hnext'⟩ :=
          go walls (r.afterChoice? walls id) p₂ (Nat.le_trans hother'.remaining_le hle)
        refine ⟨.ifElse id (Code.condition condition) body other next, q, ?_, .ifElse hfresh hbody' hother' hnext'⟩
        show (r.follow n walls (some no) p₁ >>= _) = _
        rw [hother]
        show (r.follow n walls (r.afterChoice? walls id) p₂ >>= _) = _
        rw [hnext]
        rfl
    | whileLoop condition =>
      obtain ⟨body, p₁, hbody, hbody'⟩ := go (id :: walls) (r.graph.branchTarget? id .whenTrue) _ (Nat.le_refl _)
      obtain ⟨next, q, hnext, hnext'⟩ := go walls (r.graph.branchTarget? id .whenFalse) p₁ hbody'.remaining_le
      dsimp only
      rw [hbody]
      refine ⟨.loop id (whileHeader condition) body next, q, ?_, .loop hfresh hbody' hnext'⟩
      show (r.follow n walls (r.graph.branchTarget? id .whenFalse) p₁ >>= _) = _
      rw [hnext]
      rfl
    | forLoop init condition increment =>
      obtain ⟨body, p₁, hbody, hbody'⟩ := go (id :: walls) (r.graph.branchTarget? id .whenTrue) _ (Nat.le_refl _)
      obtain ⟨next, q, hnext, hnext'⟩ := go walls (r.graph.branchTarget? id .whenFalse) p₁ hbody'.remaining_le
      dsimp only
      rw [hbody]
      refine ⟨.loop id (forHeader init condition increment) body next, q, ?_, .loop hfresh hbody' hnext'⟩
      show (r.follow n walls (r.graph.branchTarget? id .whenFalse) p₁ >>= _) = _
      rw [hnext]
      rfl
    | doWhile condition =>
      obtain ⟨next, q, hnext, hnext'⟩ := go walls (r.graph.branchTarget? id .whenFalse) _ (Nat.le_refl _)
      dsimp only
      rw [hnext]
      exact ⟨_, q, rfl, .emptyDo hfresh hnext'⟩
    | start | merge | assign | input | output | call =>
      obtain ⟨next, q, hnext, hnext'⟩ := go walls (r.graph.successor? id) _ (Nat.le_refl _)
      dsimp only
      rw [hnext]
      exact ⟨_, q, rfl, .plain hfresh hnext'⟩

/-- **Following the edges comes to its end**, whatever the chart, if it may go on for more rounds than there is left
to be done; and its code comes out as `Unfolds` says. -/
theorem follow_unfolds {fuel : Nat} (h : r.remaining p < fuel) (walls : List BlockId) (start : Option BlockId) :
    r.Ends fuel walls start p := by
  induction fuel generalizing walls start p with
  | zero => omega
  | succ n ih =>
    cases start with
    | none => exact ⟨.done, p, rfl, .rests⟩
    | some id =>
      by_cases hwall : walls.contains id = true
      · exact ⟨.done, p, by rw [follow, if_pos hwall], .rests⟩
      cases htest : r.testToOpen? id p with
      | some test =>
        obtain ⟨hfresh, hloop⟩ := mem_of_testToOpen? htest
        have hless := remaining_openLoop_lt hloop hfresh
        exact ends_opening hwall htest fun walls start _ hle => ih (by omega) walls start
      | none =>
        by_cases hvisited : p.visited.contains id = true
        · refine ⟨.done, p, ?_, .rests⟩
          rw [follow, if_neg hwall, htest]
          exact if_pos hvisited
        cases hb : r.graph.block? id with
        | none =>
          refine ⟨.done, p.cover id, ?_, .misses⟩
          rw [follow, if_neg hwall, htest]
          dsimp only
          rw [if_neg hvisited, hb]
          rfl
        | some b =>
          have hless := remaining_cover_lt hb (p := p) (by simpa using hvisited)
          exact ends_covering hwall htest hvisited hb fun walls start _ hle => ih (by omega) walls start

/-- The bound on the rounds is enough for every chart. -/
theorem remaining_lt_fuel (g : Graph) (functions : FunctionTable) (typing : Typing) :
    (g.recovery functions typing).remaining {} < (g.recovery functions typing).fuel := by
  have hblocks := unused_le_length Block.id g.blocks []
  have hloops := unused_le_length Prod.fst g.doLoops []
  have hfew : g.doLoops.length ≤ g.blocks.length :=
    Nat.le_trans (List.length_filterMap_le _ _) (List.length_filter_le _ _)
  show unused Block.id g.blocks [] + unused Prod.fst g.doLoops [] < 2 * g.blocks.length + 2
  omega

end Recovery

/-! ### The code for a chart -/

/-- The body of a loop with its test at the end begins at one place, which the test determines. -/
theorem Graph.bodyEntry?_of_mem {g : Graph} {pair : BlockId × BlockId} (h : pair ∈ g.doLoops) :
    g.bodyEntry? pair.2 = some pair.1 := by
  obtain ⟨b, -, hpair⟩ := List.mem_filterMap.mp h
  obtain ⟨entry, hentry, rfl⟩ := Option.map_eq_some_iff.mp hpair
  exact hentry

/-- Loops of a chart that begin at different places have different tests. -/
theorem Graph.nodup_tests {g : Graph} {loops : List (BlockId × BlockId)} (hmem : ∀ pair ∈ loops, pair ∈ g.doLoops)
    (h : (loops.map Prod.fst).Nodup) : (loops.map Prod.snd).Nodup := by
  have hentries : (loops.map Prod.snd).map g.bodyEntry? = (loops.map Prod.fst).map some := by
    rw [List.map_map, List.map_map]
    exact List.map_congr_left fun pair hpair => bodyEntry?_of_mem (hmem pair hpair)
  refine List.Nodup.of_map g.bodyEntry? ?_
  rw [hentries]
  exact h.map fun _ _ => Option.some.inj

/-- There is code for every chart, and it comes out as `Recovery.Unfolds` says. -/
theorem Graph.exists_code (g : Graph) (functions : FunctionTable) (typing : Typing) :
    ∃ c q, g.code functions typing = some c ∧
      (g.recovery functions typing).follow (g.recovery functions typing).fuel [] g.start? {} = some (c, q) ∧
      (g.recovery functions typing).Unfolds [] g.start? {} c q := by
  obtain ⟨c, q, hfollow, hunfolds⟩ :=
    Recovery.follow_unfolds (Recovery.remaining_lt_fuel g functions typing) [] g.start?
  refine ⟨c, q, ?_, hfollow, hunfolds⟩
  unfold Graph.code
  dsimp only
  rw [hfollow]
  rfl

/-- What is printed for a chart: the declarations of its variables, and its code. -/
theorem Graph.body_of_code {g : Graph} {functions : FunctionTable} {parameters : List Parameter} {c : Code}
    (h : g.code functions (g.typing functions parameters) = some c) (style : CodeStyle) :
    g.body style functions parameters =
      (g.typing functions parameters).locals.map (fun p => ⟨1, style.declaration p.1 p.2⟩) ++ c.lines 1 := by
  unfold Graph.body
  dsimp only
  rw [h]
  rfl

/-- **The code for a chart**, whatever its edges: missing blocks and branches, circles, several blocks with one
number, loops that share a beginning.  Every search along the edges comes to its end, and so does the recovery; what
is printed is its code.  No block is covered twice by the code, at no block is more than one loop opened, and the
condition of a test is written at most twice: once for the loop that it ends, and once where the test is reached by
another way. -/
theorem Graph.body_ends (g : Graph) (style : CodeStyle) (functions : FunctionTable) (parameters : List Parameter) :
    (∀ start, g.Searched (fun _ => true) [] [start] (g.breadthFirst start)) ∧
    (∀ walls id, g.Searched (g.passesForMerge walls) [id] (g.targets id)
      (g.visits (g.passesForMerge walls) g.searchFuel [id] (g.targets id))) ∧
    (∀ test last, g.TracedBack test [test] last (g.backToEntry test (g.blocks.length + 1) [test] last)) ∧
    ∃ code, g.code functions (g.typing functions parameters) = some code ∧
      g.body style functions parameters =
        (g.typing functions parameters).locals.map (fun p => ⟨1, style.declaration p.1 p.2⟩) ++ code.lines 1 ∧
      code.blocks.Nodup ∧ code.entries.Nodup ∧ ∀ test, code.conditions.count test ≤ 2 := by
  refine ⟨g.breadthFirst_searched, g.mergeSearch_searched, fun test last => ?_, ?_⟩
  · exact backToEntry_tracedBack test (Nat.lt_succ_of_le (unused_le_length _ _ _))
  · obtain ⟨code, q, hcode, -, hunfolds⟩ := g.exists_code functions (g.typing functions parameters)
    obtain ⟨hblocks, hentries, hloops⟩ := hunfolds.adds
    refine ⟨code, hcode, body_of_code hcode style, hblocks.nodup, hentries.nodup, fun test => ?_⟩
    have htests := nodup_tests hloops (by rw [code.map_fst_loops]; exact hentries.nodup)
    have hloop := List.nodup_iff_count_le_one.mp htests test
    have hempty := List.nodup_iff_count_le_one.mp (hblocks.nodup.sublist code.emptyTests_sublist) test
    rw [code.count_conditions]
    omega

/-- A chart in which a choice leads to the test of a loop on one side, and to the beginning of its body on the
other. -/
def testReachedTwice : Graph where
  blocks :=
    [⟨0, .start, ""⟩, ⟨1, .conditional, "a"⟩, ⟨2, .doWhile, "b"⟩, ⟨3, .assignment, "b = 1"⟩, ⟨4, .finish, ""⟩]
  edges :=
    [⟨0, 1, none, none⟩, ⟨1, 2, none, some .whenTrue⟩, ⟨1, 3, none, some .whenFalse⟩, ⟨3, 2, none, none⟩,
      ⟨2, 3, none, some .whenTrue⟩, ⟨2, 4, none, some .whenFalse⟩]

example : (testReachedTwice.code {} {}).map Code.conditions = some [2, 2] := by rfl

end Flowchart
