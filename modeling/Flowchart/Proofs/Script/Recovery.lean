import Flowchart.Code.Program
import Flowchart.Proofs.Script.Following
import Mathlib

/-!
# Code recovered from charts that show scripts

Of all the code that a chart might have, the recovered code is the one that its script calls for.  The search
behind a choice may find another merge block than that of the choice, for instance the beginning of a loop in
one of its branches.  It makes no difference: by then, whatever comes after the choice was covered inside of its
first branch, and the region ends at once.

* `Recovery.Goes` — the code from a block on, with the blocks that are settled by it.
* **`Script.recovers`** — the invariant, by induction on the script: from its entry on, the code is that of the
  script in front of whatever is found at its exit, and then all of its blocks are settled.
* **`Graph.Shows.code_eq`** — the code for a chart that shows an outline.
* **`Graph.Shows.body_eq`** — the lines written for such a chart, every block covered once.
-/

namespace Flowchart

/-- From a block on, with enough fuel, the code is `k`.  What is covered on the way lies within some blocks, and
all of these are settled afterwards. -/
def Recovery.Goes (r : Recovery) (walls within : List BlockId) (fuel : Nat) (id : BlockId) (p : Progress)
    (k : Code) : Prop :=
  ∀ n, fuel ≤ n → ∃ q, r.follow n walls (some id) p = some (k, q) ∧ p.Grows within q ∧
    ∀ x ∈ within, r.Settled walls q x

/-- A settled block ends the region. -/
theorem Recovery.Settled.goes {r : Recovery} {walls : List BlockId} {p : Progress} {id : BlockId}
    (h : r.Settled walls p id) : r.Goes walls [id] 1 id p .done := by
  intro n hn
  obtain ⟨n, rfl⟩ : ∃ m, n = m + 1 := ⟨n - 1, by omega⟩
  refine ⟨p, Recovery.follow_of_settled h n, Progress.Grows.refl _ p, ?_⟩
  intro x hx
  rw [List.mem_singleton.mp hx]
  exact h

/-- The test of a loop that begins with its body, as it is written behind the body. -/
theorem Recovery.testCondition_eq {r : Recovery} {test : Node}
    (hfound : r.graph.block? test.id = some (test.block .doWhile))
    (hread : ∃ i, (test.block .doWhile).instruction = .ok i) :
    r.testCondition test.id = Code.condition (test.block .doWhile).read.condition := by
  unfold Recovery.testCondition
  rw [hfound]
  show Code.condition (Text.trim test.label.toList) = _
  have hi := Block.instruction_eq hread
  unfold Block.instruction at hi
  cases hl : Instruction.ofLabel (test.block .doWhile).kind (test.block .doWhile).label.toList with
  | error reason =>
    rw [hl] at hi
    cases hi
  | ok i =>
    rw [hl] at hi
    rw [← Except.ok.inj hi]
    have hcondition : Instruction.readCondition .doWhile (Text.trim test.label.toList) = .ok i := hl
    unfold Instruction.readCondition at hcondition
    split at hcondition
    · cases hcondition
    · cases hcondition
      rfl

namespace Script

variable {r : Recovery}

/-- The code of a script is recovered, wherever the script stands: from its entry on, the code is that of the
script in front of the code `k` that is found at its exit.  All that may be covered on the way is the script and
what lies beyond its exit. -/
def Recovers (r : Recovery) (exit : BlockId) (s : Script) : Prop :=
  ∀ (walls beyond : List BlockId) (p : Progress) (fuel : Nat) (k : Code), exit ∈ beyond →
    s.ids.Disjoint beyond → p.Fresh walls s.ids → 1 ≤ fuel →
    (∀ q, p.Grows s.ids q → r.Goes walls beyond fuel exit q k) →
    r.Goes walls (s.ids ++ beyond) (fuel + 2 * s.blocks.length) (s.entry exit) p (s.code r.statements k)

theorem recovers_simple {exit : BlockId} {kind : Simple} {node : Node} {next : Script}
    (hnodup : node.id ∉ next.ids) (hnode : r.graph.block? node.id = some (node.block kind.kind))
    (hleads : r.graph.Leads node.id (next.entry exit)) (hloop : r.testAt? node.id = none)
    (hread : ∃ i, (node.block kind.kind).instruction = .ok i) (hnext : Recovers r exit next) :
    Recovers r exit (simple kind node next) := by
  intro walls beyond p fuel k hexit hbeyond hfresh hfuel hk n hn
  rw [ids_simple] at hbeyond hfresh hk ⊢
  rw [show (simple kind node next).blocks.length = next.blocks.length + 1 from rfl] at hn
  obtain ⟨n, rfl⟩ : ∃ m, n = m + 1 := ⟨n - 1, by omega⟩
  obtain ⟨hwall, hunvisited, -⟩ := hfresh node.id List.mem_cons_self
  have hfaces : r.Faces walls p (node.block kind.kind) (node.block kind.kind).read :=
    ⟨hwall, .inl hloop, hunvisited, hnode, Block.instruction_eq hread⟩
  have hkind : (node.block kind.kind).read.kind = kind.kind := Block.kind_of_instruction hfaces.instruction
  have hcover : p.Grows [node.id] (p.cover node.id) := Progress.grows_cover List.mem_cons_self p
  have hfreshNext : (p.cover node.id).Fresh walls next.ids :=
    (hfresh.sub (List.subset_cons_self _ _)).of_grows hcover (List.disjoint_singleton.mpr hnodup)
  have hnextK : ∀ q, (p.cover node.id).Grows next.ids q → r.Goes walls beyond fuel exit q k := by
    intro q hq
    exact hk q ((hcover.mono (by simp)).trans (hq.mono (List.subset_cons_self _ _)))
  obtain ⟨q, hq, hgrows, hsettled⟩ :=
    hnext walls beyond _ fuel k hexit (List.disjoint_cons_left.mp hbeyond).2 hfreshNext hfuel hnextK n (by omega)
  refine ⟨q, ?_, (hcover.mono (by simp)).trans (hgrows.mono (List.subset_cons_self _ _)), ?_⟩
  · refine Recovery.follow_plain hfaces ?_ ?_ ?_
    · rw [hkind]
      cases kind <;> rfl
    · rw [hkind]
      cases kind <;> exact BlockKind.noConfusion
    · rw [Node.block_id, hleads.successor]
      exact hq
  · intro x hx
    rcases List.mem_cons.mp hx with rfl | hx
    · have hhere : r.Settled walls (p.cover node.id) node.id := .inr ⟨List.mem_cons_self, .inl hloop⟩
      exact hhere.mono hgrows
    · exact hsettled x hx

/-- A merge block is covered without a statement, and code goes on behind it. -/
theorem goes_merge {walls within : List BlockId} {fuel : Nat} {target : BlockId} {join : Node} {p : Progress}
    {k : Code} (hjoin : r.graph.block? join.id = some (join.block .merge)) (hleads : r.graph.Leads join.id target)
    (hloop : r.testAt? join.id = none ∨ join.id ∈ p.opened) (hwall : join.id ∉ walls)
    (hunvisited : join.id ∉ p.visited) (hk : r.Goes walls within fuel target (p.cover join.id) k) :
    r.Goes walls (join.id :: within) (fuel + 1) join.id p (.plain join.id [] k) := by
  intro n hn
  obtain ⟨n, rfl⟩ : ∃ m, n = m + 1 := ⟨n - 1, by omega⟩
  have hfaces : r.Faces walls p (join.block .merge) .merge := ⟨hwall, hloop, hunvisited, hjoin, rfl⟩
  have hcover : p.Grows [join.id] (p.cover join.id) := Progress.grows_cover List.mem_cons_self p
  obtain ⟨q, hq, hgrows, hsettled⟩ := hk n (by omega)
  rw [← hleads.successor] at hq
  refine ⟨q, Recovery.follow_plain hfaces rfl BlockKind.noConfusion hq, ?_, ?_⟩
  · exact (hcover.mono (by simp)).trans (hgrows.mono (List.subset_cons_self _ _))
  · intro x hx
    rcases List.mem_cons.mp hx with rfl | hx
    · have hhere : r.Settled walls (p.cover join.id) join.id := .inr ⟨List.mem_cons_self, hloop⟩
      exact hhere.mono hgrows
    · exact hsettled x hx

theorem recovers_choice {exit : BlockId} {test join : Node} {yes no next : Script}
    (hlaid : Laid r.graph exit (choice test join yes no next)) (hs : DistinctChoice test join yes no next)
    (htest : r.testAt? test.id = none) (hjoin : r.testAt? join.id = none)
    (hread : ∃ i, (test.block .conditional).instruction = .ok i) (hyes : Recovers r join.id yes)
    (hno : Recovers r join.id no) (hnext : Recovers r exit next) :
    Recovers r exit (choice test join yes no next) := by
  intro walls beyond p fuel k hexit hbeyond hfresh hfuel hk n hn
  have hafter := afterChoice?_mem hlaid walls
  rw [ids_choice] at hbeyond hfresh hk hafter ⊢
  simp only [List.disjoint_cons_left, List.disjoint_append_left] at hbeyond
  obtain ⟨-, -, ⟨hyesBeyond, hnoBeyond⟩, hnextBeyond⟩ := hbeyond
  have hlen : (choice test join yes no next).blocks.length =
      yes.blocks.length + no.blocks.length + next.blocks.length + 2 := by
    simp [blocks, Nat.add_assoc]
  rw [hlen] at hn
  obtain ⟨n, rfl⟩ : ∃ m, n = m + 1 := ⟨n - 1, by omega⟩
  obtain ⟨hwall, hunvisited, -⟩ := hfresh test.id List.mem_cons_self
  cases hlaid with
  | choice hfound hfoundJoin hforks hleads _ _ _ =>
  have hfaces : r.Faces walls p (test.block .conditional) (test.block .conditional).read :=
    ⟨hwall, .inl htest, hunvisited, hfound, Block.instruction_eq hread⟩
  have hcover : p.Grows [test.id] (p.cover test.id) := Progress.grows_cover List.mem_cons_self p
  have hcovered : (p.cover test.id).Fresh walls (join.id :: (yes.ids ++ no.ids ++ next.ids)) :=
    (hfresh.sub (List.subset_cons_self _ _)).of_grows hcover
      (List.disjoint_singleton.mpr (by simp [hs.test_join, hs.test_yes, hs.test_no, hs.test_next]))
  -- The first branch goes on with what follows the choice.
  have hbehind : ∀ q, (p.cover test.id).Grows yes.ids q →
      r.Goes walls (join.id :: (next.ids ++ beyond)) (fuel + 2 * next.blocks.length + 1) join.id q
        (.plain join.id [] (next.code r.statements k)) := by
    intro q hq
    have hfreshJoin : q.Fresh walls (join.id :: next.ids) :=
      (hcovered.sub fun x hx => by rcases List.mem_cons.mp hx with rfl | hx <;> simp [*]).of_grows hq
        (List.disjoint_cons_left.mpr ⟨hs.join_yes, List.disjoint_symm hs.yes_next⟩)
    obtain ⟨hwallJoin, hunvisitedJoin, -⟩ := hfreshJoin join.id List.mem_cons_self
    have hcoverJoin : q.Grows [join.id] (q.cover join.id) := Progress.grows_cover List.mem_cons_self q
    have hfreshNext : (q.cover join.id).Fresh walls next.ids :=
      (hfreshJoin.sub (List.subset_cons_self _ _)).of_grows hcoverJoin (List.disjoint_singleton.mpr hs.join_next)
    refine goes_merge hfoundJoin hleads (.inl hjoin) hwallJoin hunvisitedJoin ?_
    refine hnext walls beyond _ fuel k hexit hnextBeyond hfreshNext hfuel fun q' hq' => hk q' ?_
    have htoYes : p.Grows (test.id :: join.id :: (yes.ids ++ no.ids ++ next.ids)) q :=
      (hcover.mono (by simp)).trans (hq.mono fun x hx => by simp [hx])
    exact (htoYes.trans (hcoverJoin.mono (by simp))).trans (hq'.mono fun x hx => by simp [hx])
  obtain ⟨q, hq, hgrows, hsettled⟩ := hyes walls (join.id :: (next.ids ++ beyond)) _ _ _ List.mem_cons_self
    (by simp [hs.join_yes, hs.yes_next, hyesBeyond]) (hcovered.sub fun x hx => by simp [hx]) (by omega) hbehind n
    (by omega)
  -- The other branch ends at the merge block, which was covered.
  have hfreshNo : q.Fresh walls no.ids :=
    (hcovered.sub fun x hx => by simp [hx]).of_grows hgrows
      (by simp [List.disjoint_symm hs.yes_no, hs.join_no, hs.no_next, hnoBeyond])
  have hend : ∀ u, q.Grows no.ids u → r.Goes walls [join.id] 1 join.id u .done := by
    intro u hu
    exact ((hsettled join.id (by simp)).mono hu).goes
  obtain ⟨q', hq', hgrows', hsettled'⟩ := hno walls [join.id] q 1 .done List.mem_cons_self
    (List.disjoint_singleton.mpr hs.join_no) hfreshNo (Nat.le_refl _) hend n (by omega)
  have hall : ∀ x ∈ test.id :: join.id :: (yes.ids ++ no.ids ++ next.ids) ++ beyond, r.Settled walls q' x := by
    intro x hx
    simp only [List.cons_append, List.mem_cons, List.mem_append] at hx
    rcases hx with rfl | rfl | ((hx | hx) | hx) | hx
    · have hhere : r.Settled walls (p.cover test.id) test.id := .inr ⟨List.mem_cons_self, .inl htest⟩
      exact (hhere.mono hgrows).mono hgrows'
    · exact (hsettled join.id (by simp)).mono hgrows'
    · exact (hsettled x (by simp [hx])).mono hgrows'
    · exact hsettled' x (List.mem_append_left _ hx)
    · exact (hsettled x (by simp [hx])).mono hgrows'
    · exact (hsettled x (by simp [hx])).mono hgrows'
  -- So nothing is left behind the choice.
  have hrest : r.follow n walls (r.afterChoice? walls test.id) q' = some (.done, q') := by
    obtain ⟨n, rfl⟩ : ∃ m, n = m + 1 := ⟨n - 1, by omega⟩
    cases htarget : r.afterChoice? walls test.id with
    | none => rfl
    | some target =>
      refine Recovery.follow_of_settled (hall target ?_) n
      rcases hafter target htarget with hmem | rfl
      · exact List.mem_append_left _ hmem
      · exact List.mem_append_right _ hexit
  refine ⟨q', ?_, ?_, hall⟩
  · have hkind : (test.block .conditional).read.kind = .conditional :=
      Block.kind_of_instruction hfaces.instruction
    rw [← hforks.whenTrue] at hq
    exact Recovery.follow_choice hfaces hkind hq hforks.whenFalse hq' hrest
  · have htoYes : p.Grows (test.id :: join.id :: (yes.ids ++ no.ids ++ next.ids) ++ beyond) q := by
      refine (hcover.mono (by simp)).trans (hgrows.mono fun x hx => ?_)
      simp only [List.mem_append, List.mem_cons] at hx
      rcases hx with hx | hx | hx | hx <;> simp [hx]
    refine htoYes.trans (hgrows'.mono fun x hx => ?_)
    rcases List.mem_append.mp hx with hx | hx
    · simp [hx]
    · simp [List.mem_singleton.mp hx]

theorem recovers_loop {exit : BlockId} {kind : Looping} {head : Node} {body next : Script}
    (hs : DistinctLoop head body next)
    (hhead : r.graph.block? head.id = some (head.block kind.kind))
    (hforks : r.graph.Forks head.id (body.entry head.id) (next.entry exit)) (hloop : r.testAt? head.id = none)
    (hread : ∃ i, (head.block kind.kind).instruction = .ok i) (hbody : Recovers r head.id body)
    (hnext : Recovers r exit next) : Recovers r exit (loop kind head body next) := by
  intro walls beyond p fuel k hexit hbeyond hfresh hfuel hk n hn
  rw [ids_loop] at hbeyond hfresh hk ⊢
  simp only [List.disjoint_cons_left, List.disjoint_append_left] at hbeyond
  obtain ⟨-, -, hnextBeyond⟩ := hbeyond
  have hlen : (loop kind head body next).blocks.length = body.blocks.length + next.blocks.length + 1 := by
    simp [blocks]
  rw [hlen] at hn
  obtain ⟨n, rfl⟩ : ∃ m, n = m + 1 := ⟨n - 1, by omega⟩
  obtain ⟨hwall, hunvisited, -⟩ := hfresh head.id List.mem_cons_self
  have hfaces : r.Faces walls p (head.block kind.kind) (head.block kind.kind).read :=
    ⟨hwall, .inl hloop, hunvisited, hhead, Block.instruction_eq hread⟩
  have hcover : p.Grows [head.id] (p.cover head.id) := Progress.grows_cover List.mem_cons_self p
  have hcovered : (p.cover head.id).Fresh walls (body.ids ++ next.ids) :=
    (hfresh.sub (List.subset_cons_self _ _)).of_grows hcover
      (List.disjoint_singleton.mpr (by simp [hs.head_body, hs.head_next]))
  -- The body ends at the head, which is a wall.
  have hend : ∀ u, r.Goes (head.id :: walls) [head.id] 1 head.id u .done := by
    intro u
    have hsettled : r.Settled (head.id :: walls) u head.id := .inl List.mem_cons_self
    exact hsettled.goes
  have hfreshBody : (p.cover head.id).Fresh (head.id :: walls) body.ids :=
    (hcovered.sub (List.subset_append_left _ _)).of_wall hs.head_body
  obtain ⟨q, hq, hgrows, hsettled⟩ := hbody (head.id :: walls) [head.id] _ 1 .done List.mem_cons_self
    (List.disjoint_singleton.mpr hs.head_body) hfreshBody (Nat.le_refl _) (fun u _ => hend u) n (by omega)
  have hsofar : p.Grows (head.id :: (body.ids ++ next.ids)) q := by
    refine (hcover.mono (by simp)).trans (hgrows.mono fun x hx => ?_)
    rcases List.mem_append.mp hx with hx | hx
    · simp [hx]
    · simp [List.mem_singleton.mp hx]
  have hfreshNext : q.Fresh walls next.ids :=
    (hcovered.sub (List.subset_append_right _ _)).of_grows hgrows (by simp [List.disjoint_symm hs.body_next, hs.head_next])
  obtain ⟨q', hq', hgrows', hsettled'⟩ := hnext walls beyond q fuel k hexit hnextBeyond hfreshNext hfuel
    (fun u hu => hk u (hsofar.trans (hu.mono fun x hx => by simp [hx]))) n (by omega)
  refine ⟨q', ?_, ?_, ?_⟩
  · have hkind : (head.block kind.kind).read.kind = kind.kind := Block.kind_of_instruction hfaces.instruction
    have hloopKind : (head.block kind.kind).read.kind = .loop ∨ (head.block kind.kind).read.kind = .forLoop := by
      rw [hkind]
      cases kind
      · exact .inl rfl
      · exact .inr rfl
    rw [← hforks.whenTrue] at hq
    rw [← hforks.whenFalse] at hq'
    exact Recovery.follow_loop hfaces hloopKind hq hq'
  · refine (hsofar.mono (List.subset_append_left _ _)).trans (hgrows'.mono fun x hx => ?_)
    rcases List.mem_append.mp hx with hx | hx <;> simp [hx]
  · intro x hx
    simp only [List.cons_append, List.mem_cons, List.mem_append] at hx
    rcases hx with rfl | (hx | hx) | hx
    · have hhere : r.Settled walls (p.cover head.id) head.id := .inr ⟨List.mem_cons_self, .inl hloop⟩
      exact (hhere.mono hgrows).mono hgrows'
    · have hne : x ≠ head.id := fun heq => hs.head_body (heq ▸ hx)
      exact ((hsettled x (List.mem_append_left _ hx)).of_cons hne).mono hgrows'
    · exact hsettled' x (List.mem_append_left _ hx)
    · exact hsettled' x (List.mem_append_right _ hx)

theorem recovers_doLoop {exit : BlockId} {entry test : Node} {body next : Script}
    (hs : DistinctDoLoop entry test body next)
    (hfound : r.graph.block? entry.id = some (entry.block .merge))
    (hfoundTest : r.graph.block? test.id = some (test.block .doWhile))
    (hleads : r.graph.Leads entry.id (body.entry test.id))
    (hforks : r.graph.Forks test.id entry.id (next.entry exit)) (hentry : r.testAt? entry.id = some test.id)
    (htest : r.testAt? test.id = none) (hread : ∃ i, (test.block .doWhile).instruction = .ok i)
    (hbody : Recovers r test.id body) (hnext : Recovers r exit next) :
    Recovers r exit (doLoop entry test body next) := by
  intro walls beyond p fuel k hexit hbeyond hfresh hfuel hk n hn
  rw [ids_doLoop] at hbeyond hfresh hk ⊢
  simp only [List.disjoint_cons_left, List.disjoint_append_left] at hbeyond
  obtain ⟨-, -, -, hnextBeyond⟩ := hbeyond
  have hlen : (doLoop entry test body next).blocks.length = body.blocks.length + next.blocks.length + 2 := by
    simp [blocks]
  rw [hlen] at hn
  obtain ⟨n, rfl⟩ : ∃ m, n = m + 1 := ⟨n - 1, by omega⟩
  obtain ⟨hwall, hunvisited, hunopened⟩ := hfresh entry.id List.mem_cons_self
  have hopen : p.Grows [entry.id] (p.openLoop entry.id) := Progress.grows_openLoop List.mem_cons_self p
  have hcover : (p.openLoop entry.id).Grows [entry.id] ((p.openLoop entry.id).cover entry.id) :=
    Progress.grows_cover List.mem_cons_self _
  have hopened : (p.openLoop entry.id).Fresh walls (body.ids ++ next.ids) :=
    (hfresh.sub fun x hx => by simp [List.mem_append.mp hx]).of_grows hopen
      (List.disjoint_singleton.mpr (by simp [hs.entry_body, hs.entry_next]))
  -- The body ends at the test, which is a wall.
  have hend : ∀ u, r.Goes (test.id :: walls) [test.id] 1 test.id u .done := by
    intro u
    have hsettled : r.Settled (test.id :: walls) u test.id := .inl List.mem_cons_self
    exact hsettled.goes
  have hfreshBody : ((p.openLoop entry.id).cover entry.id).Fresh (test.id :: walls) body.ids :=
    ((hopened.sub (List.subset_append_left _ _)).of_grows hcover
      (List.disjoint_singleton.mpr hs.entry_body)).of_wall hs.test_body
  have hinner := hbody (test.id :: walls) [test.id] _ 1 .done List.mem_cons_self
    (List.disjoint_singleton.mpr hs.test_body) hfreshBody (Nat.le_refl _) (fun u _ => hend u)
  have hwall' : entry.id ∉ test.id :: walls := by simp [hs.entry_test, hwall]
  obtain ⟨q, hq, hgrows, hsettled⟩ := goes_merge (p := p.openLoop entry.id) hfound hleads (.inr List.mem_cons_self)
    hwall' hunvisited hinner n (by omega)
  have htested : q.Grows [test.id] (q.cover test.id) := Progress.grows_cover List.mem_cons_self q
  have hsofar : p.Grows (entry.id :: test.id :: (body.ids ++ next.ids)) (q.cover test.id) := by
    refine (hopen.mono (by simp)).trans ((hgrows.mono fun x hx => ?_).trans (htested.mono (by simp)))
    simp only [List.mem_append, List.mem_cons, List.not_mem_nil, or_false] at hx
    rcases hx with hx | hx | hx <;> simp [hx]
  have hfreshNext : (q.cover test.id).Fresh walls next.ids :=
    ((hopened.sub (List.subset_append_right _ _)).of_grows hgrows
      (by simp [hs.entry_next, List.disjoint_symm hs.body_next, hs.test_next])).of_grows htested (List.disjoint_singleton.mpr hs.test_next)
  obtain ⟨q', hq', hgrows', hsettled'⟩ := hnext walls beyond _ fuel k hexit hnextBeyond hfreshNext hfuel
    (fun u hu => hk u (hsofar.trans (hu.mono fun x hx => by simp [hx]))) n (by omega)
  refine ⟨q', ?_, ?_, ?_⟩
  · rw [← hforks.whenFalse] at hq'
    have hloop := Recovery.follow_doLoop hwall hentry hunopened hq hq'
    rw [Recovery.testCondition_eq hfoundTest hread] at hloop
    exact hloop
  · refine (hsofar.mono (List.subset_append_left _ _)).trans (hgrows'.mono fun x hx => ?_)
    rcases List.mem_append.mp hx with hx | hx <;> simp [hx]
  · intro x hx
    simp only [List.cons_append, List.mem_cons, List.mem_append] at hx
    rcases hx with rfl | rfl | (hx | hx) | hx
    · exact (((hsettled entry.id (by simp)).of_cons hs.entry_test).mono htested).mono hgrows'
    · have hhere : r.Settled walls (q.cover test.id) test.id := .inr ⟨List.mem_cons_self, .inl htest⟩
      exact hhere.mono hgrows'
    · have hne : x ≠ test.id := fun heq => hs.test_body (heq ▸ hx)
      exact (((hsettled x (by simp [hx])).of_cons hne).mono htested).mono hgrows'
    · exact hsettled' x (List.mem_append_left _ hx)
    · exact hsettled' x (List.mem_append_right _ hx)

/-- **The code of a script that is laid out is recovered**, by induction on the script. -/
theorem recovers {exit : BlockId} {s : Script} (hlaid : Laid r.graph exit s) (hnodup : s.ids.Nodup)
    (htested : s.Tested r) (hread : ∀ b ∈ s.blocks, ∃ i, b.instruction = .ok i) : Recovers r exit s := by
  induction hlaid with
  | done =>
    intro walls beyond p fuel k _ _ _ _ hk
    exact hk p (Progress.Grows.refl _ p)
  | simple hnode hleads _ ih =>
    rw [ids_simple, List.nodup_cons] at hnodup
    obtain ⟨hreadHere, hreadNext⟩ := forall_blocks_simple.mp hread
    cases htested with
    | simple hloop hnext =>
      exact recovers_simple hnodup.1 hnode hleads hloop hreadHere (ih hnodup.2 hnext hreadNext)
  | choice htest hjoin hforks hleads hyes hno hnext ihy ihn ih =>
    have hs := distinctChoice_of_nodup hnodup
    obtain ⟨⟨hreadTest, -⟩, hreadYes, hreadNo, hreadNext⟩ := forall_blocks_choice.mp hread
    cases htested with
    | choice hat hatJoin hyes' hno' hnext' =>
      exact recovers_choice (.choice htest hjoin hforks hleads hyes hno hnext) hs hat hatJoin hreadTest
        (ihy hs.nodup_yes hyes' hreadYes) (ihn hs.nodup_no hno' hreadNo) (ih hs.nodup_next hnext' hreadNext)
  | loop hhead hforks _ _ ihb ih =>
    have hs := distinctLoop_of_nodup hnodup
    obtain ⟨hreadHead, hreadBody, hreadNext⟩ := forall_blocks_loop.mp hread
    cases htested with
    | loop hat hbody' hnext' =>
      exact recovers_loop hs hhead hforks hat hreadHead (ihb hs.nodup_body hbody' hreadBody)
        (ih hs.nodup_next hnext' hreadNext)
  | doLoop hentry htest hleads hforks _ _ ihb ih =>
    have hs := distinctDoLoop_of_nodup hnodup
    obtain ⟨⟨-, hreadTest⟩, hreadBody, hreadNext⟩ := forall_blocks_doLoop.mp hread
    cases htested with
    | doLoop hatEntry hat hbody' hnext' =>
      exact recovers_doLoop hs hentry htest hleads hforks hatEntry hat hreadTest
        (ihb hs.nodup_body hbody' hreadBody) (ih hs.nodup_next hnext' hreadNext)

end Script

/-! ### Charts -/

/-- How statements without branches are written: by the types of variables and of functions alone. -/
def Typing.printer (typing : Typing) (functions : FunctionTable) : Instruction → List Statement :=
  (Graph.recovery {} functions typing).statements

/-- The chart has no part in how statements are written. -/
theorem Graph.statements_recovery (g : Graph) (functions : FunctionTable) (typing : Typing) :
    (g.recovery functions typing).statements = typing.printer functions := by
  funext i
  cases i <;> rfl

/-- **The code for a chart that shows an outline** is the code of its script, between a start block and an end
block that write nothing. -/
theorem Graph.Shows.code_eq {g : Graph} {o : Outline} (h : g.Shows o)
    (hread : ∀ b ∈ o.script.blocks, ∃ i, b.instruction = .ok i) (functions : FunctionTable) (typing : Typing) :
    g.code functions typing =
      some (.plain o.start.id [] (o.script.code (typing.printer functions) (.plain o.finish.id [] .done))) := by
  have hdo : (g.recovery functions typing).doLoops = g.doLoops := rfl
  have hrecovers : Script.Recovers (g.recovery functions typing) o.finish.id o.script :=
    Script.recovers h.laid o.script_nodup (h.tested hdo) hread
  have hcover : Progress.Grows [o.start.id] {} (Progress.cover o.start.id {}) :=
    Progress.grows_cover List.mem_cons_self {}
  have hfresh : (Progress.cover o.start.id {}).Fresh [] o.script.ids := by
    have hempty : Progress.Fresh {} [] o.script.ids :=
      fun _ _ => ⟨List.not_mem_nil, List.not_mem_nil, List.not_mem_nil⟩
    exact hempty.of_grows hcover (List.disjoint_singleton.mpr o.start_not_mem)
  -- The end block is the exit of the script, and code ends there.
  have hend : ∀ q, (Progress.cover o.start.id {}).Grows o.script.ids q →
      (g.recovery functions typing).Goes [] [o.finish.id] 1 o.finish.id q (.plain o.finish.id [] .done) := by
    intro q hq n hn
    obtain ⟨n, rfl⟩ : ∃ m, n = m + 1 := ⟨n - 1, by omega⟩
    have hunvisited : o.finish.id ∉ q.visited := by
      intro hmem
      rcases hq.visited_new _ hmem with hmem | hmem
      · exact o.start_ne_finish (List.mem_singleton.mp hmem).symm
      · exact o.finish_not_mem hmem
    have hat := h.testAt?_eq_none hdo o.finish_not_mem
    have hfaces : (g.recovery functions typing).Faces [] q (o.finish.block .finish) .finish :=
      ⟨List.not_mem_nil, .inl hat, hunvisited, h.found (List.mem_cons_of_mem _ List.mem_cons_self), rfl⟩
    refine ⟨_, Recovery.follow_finish hfaces rfl, Progress.grows_cover List.mem_cons_self q, ?_⟩
    intro x hx
    rw [List.mem_singleton.mp hx]
    exact .inr ⟨List.mem_cons_self, .inl hat⟩
  have hlength : g.blocks.length = o.script.blocks.length + 2 := h.blocks.length_eq
  obtain ⟨q, hq, -, -⟩ := hrecovers [] [o.finish.id] _ 1 _ List.mem_cons_self
    (List.disjoint_singleton.mpr o.finish_not_mem) hfresh (Nat.le_refl _) hend (2 * g.blocks.length + 1)
    (by omega)
  have hfaces : (g.recovery functions typing).Faces [] {} (o.start.block .start) .start :=
    ⟨List.not_mem_nil, .inl (h.testAt?_eq_none hdo o.start_not_mem), List.not_mem_nil, h.found List.mem_cons_self,
      rfl⟩
  rw [← h.start_leads.successor] at hq
  have hstart := Recovery.follow_plain hfaces rfl BlockKind.noConfusion hq
  rw [Graph.statements_recovery] at hstart
  unfold Graph.code
  rw [h.start?_eq]
  show ((g.recovery functions typing).follow (2 * g.blocks.length + 1 + 1) [] (some o.start.id) {}).map Prod.fst = _
  exact congrArg (Option.map Prod.fst) hstart

/-- **The statements written for a chart that shows an outline are those of its script**, at the depths at which
the script has them.  So every block is written once, a test at the end of a loop together with its loop. -/
theorem Graph.Shows.body_eq {g : Graph} {o : Outline} (h : g.Shows o)
    (hread : ∀ b ∈ o.script.blocks, ∃ i, b.instruction = .ok i) (functions : FunctionTable) :
    (∀ typing : Typing, ∃ code, g.code functions typing = some code ∧
      (∀ depth, code.lines depth = o.script.emission (typing.printer functions) depth) ∧
      code.blocks.Perm (o.start.id :: o.finish.id :: o.script.covered)) ∧
    ∀ (style : CodeStyle) (parameters : List Parameter),
      g.body style functions parameters =
        (g.typing functions parameters).locals.map (fun p => ⟨1, style.declaration p.1 p.2⟩) ++
          o.script.emission ((g.typing functions parameters).printer functions) 1 := by
  have hlines : ∀ (typing : Typing) (depth : Nat),
      (Code.plain o.start.id [] (o.script.code (typing.printer functions) (.plain o.finish.id [] .done))).lines depth =
        o.script.emission (typing.printer functions) depth := by
    intro typing depth
    have hscript := Script.lines_code (typing.printer functions) (s := o.script) (t := .done)
      (k := .plain o.finish.id [] .done) (fun d => by rw [Script.emission, Code.lines, Code.lines]; rfl) depth
    rw [Script.append_done] at hscript
    rw [Code.lines, hscript]
    rfl
  refine ⟨fun typing => ⟨_, h.code_eq hread functions typing, hlines typing, ?_⟩, fun style parameters => ?_⟩
  · have hblocks := Script.blocks_code (typing.printer functions) o.script (.plain o.finish.id [] .done)
    rw [Code.blocks, List.perm_cons]
    refine hblocks.trans ?_
    rw [Code.blocks, Code.blocks]
    exact List.perm_append_comm
  · unfold Graph.body
    dsimp only
    rw [h.code_eq hread, Option.getD_some, hlines]

/-- A choice whose first branch begins with a loop, so that the search behind the choice finds the entry of that
loop first. -/
def loopInBranch : Outline where
  start := ⟨0, ""⟩
  finish := ⟨1, ""⟩
  script :=
    .choice ⟨2, "x"⟩ ⟨3, ""⟩ (.doLoop ⟨4, ""⟩ ⟨5, "x"⟩ (.simple .assignment ⟨6, "x=y"⟩ .done) .done) .done
      (.simple .functionCall ⟨7, "f()"⟩ .done)
  nodup := by decide

/-- The chart for it. -/
def loopInBranchChart : Graph where
  blocks :=
    [⟨0, .start, ""⟩, ⟨1, .finish, ""⟩, ⟨2, .conditional, "x"⟩, ⟨3, .merge, ""⟩, ⟨4, .merge, ""⟩, ⟨5, .doWhile, "x"⟩,
      ⟨6, .assignment, "x=y"⟩, ⟨7, .functionCall, "f()"⟩]
  edges :=
    [⟨0, 2, none, none⟩, ⟨2, 4, none, some .whenTrue⟩, ⟨4, 6, none, none⟩, ⟨6, 5, none, none⟩,
      ⟨5, 4, none, some .whenTrue⟩, ⟨5, 3, none, some .whenFalse⟩, ⟨2, 3, none, some .whenFalse⟩,
      ⟨3, 7, none, none⟩, ⟨7, 1, none, none⟩]

/-- Every block of the chart is written once, also the loop whose entry the search finds. -/
theorem loopInBranchChart_body_eq :
    loopInBranchChart.Shows loopInBranch ∧
      (∀ b ∈ loopInBranch.script.blocks, ∃ i, b.instruction = .ok i) ∧
      ∀ typing : Typing, ∃ code, loopInBranchChart.code {} typing = some code ∧
        (∀ depth, code.lines depth = loopInBranch.script.emission (typing.printer {}) depth) ∧
        code.blocks.Perm [0, 1, 2, 3, 4, 6, 7] := by
  have hshows : loopInBranchChart.Shows loopInBranch := ⟨by decide, by decide⟩
  have hread : ∀ b ∈ loopInBranch.script.blocks, ∃ i, b.instruction = .ok i := by
    intro b hb
    simp only [loopInBranch, Script.blocks, List.mem_cons, List.append_nil, List.cons_append, List.nil_append,
      List.not_mem_nil, or_false] at hb
    rcases hb with rfl | rfl | rfl | rfl | rfl | rfl
    · exact ⟨.choose "x".toList, by cbv⟩
    · exact ⟨.merge, rfl⟩
    · exact ⟨.merge, rfl⟩
    · exact ⟨.doWhile "x".toList, by cbv⟩
    · exact ⟨.assign (some "x") "y".toList, by cbv⟩
    · exact ⟨.call none "f" [], by cbv⟩
  exact ⟨hshows, hread, (Graph.Shows.body_eq hshows hread {}).1⟩

end Flowchart
