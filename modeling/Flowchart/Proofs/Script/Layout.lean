import Flowchart.Proofs.Script.Basic

/-!
# Charts that show scripts

A chart shows an outline if it consists of the blocks and the edges that the outline calls for.  Their order is
free, and so are the texts on the edges: with a tag on every edge of a condition nobody reads them.

* `Outline` — a script between a start block and an end block, all of them with numbers of their own.
* `Graph.Shows` — the relation between charts and outlines.
* `Graph.Leads`, `Graph.Forks` — a block that is left for one other block, and a block that is left for one of
  two, as its condition says.
* `Script.Laid` — how a chart looks from the inside, block by block, where a script is laid out in front of an
  exit.  **`Graph.Shows.laid`** is the step from the drawing to this view, by induction on the script; the edges
  at a block are known because no other part of the script has a block of that number.
-/

namespace Flowchart

/-! ### Outlines -/

/-- A script between a start block and an end block, all of them with numbers of their own. -/
structure Outline where
  start : Node
  finish : Node
  script : Script
  nodup : (start.id :: finish.id :: script.ids).Nodup

namespace Outline

/-- The blocks that an outline calls for. -/
def blocks (o : Outline) : List Block := o.start.block .start :: o.finish.block .finish :: o.script.blocks

/-- The edges that an outline calls for. -/
def edges (o : Outline) : List Edge :=
  { source := o.start.id, target := o.script.entry o.finish.id } :: o.script.edges o.finish.id

/-- The numbers of the script are different. -/
theorem script_nodup (o : Outline) : o.script.ids.Nodup := (List.nodup_cons.mp (List.nodup_cons.mp o.nodup).2).2

/-- The start block is no block of the script. -/
theorem start_not_mem (o : Outline) : o.start.id ∉ o.script.ids :=
  fun h => (List.nodup_cons.mp o.nodup).1 (List.mem_cons_of_mem _ h)

/-- The end block is no block of the script. -/
theorem finish_not_mem (o : Outline) : o.finish.id ∉ o.script.ids :=
  (List.nodup_cons.mp (List.nodup_cons.mp o.nodup).2).1

theorem start_ne_finish (o : Outline) : o.start.id ≠ o.finish.id :=
  fun h => (List.nodup_cons.mp o.nodup).1 (by rw [h]; exact List.mem_cons_self)

end Outline

/-- The edge without the text on it. -/
def Edge.bare (e : Edge) : Edge := { e with label := none }

/-- The chart consists of the blocks and edges of the outline, in any order and with any texts on the edges. -/
structure Graph.Shows (g : Graph) (o : Outline) : Prop where
  blocks : g.blocks.Perm o.blocks
  edges : (g.edges.map Edge.bare).Perm o.edges

/-! ### Looking up blocks and edges -/

namespace Graph

/-- With different numbers on all blocks, look-up finds the block that has the number. -/
theorem block?_eq_some_iff_of_nodup {g : Graph} (hnodup : (g.blocks.map Block.id).Nodup) {id : BlockId} {b : Block} :
    g.block? id = some b ↔ b ∈ g.blocks ∧ b.id = id := by
  refine block?_eq_some_iff fun a ha c hc hid hid' => ?_
  exact List.inj_on_of_nodup_map hnodup ha hc (hid.trans hid'.symm)

theorem block?_of_mem {g : Graph} {b : Block} (hg : (g.blocks.map Block.id).Nodup) (hb : b ∈ g.blocks) :
    g.block? b.id = some b :=
  (block?_eq_some_iff_of_nodup hg).mpr ⟨hb, rfl⟩

/-- The only block of a kind is the first one. -/
theorem firstOf?_eq {g : Graph} {b : Block} (hb : b ∈ g.blocks)
    (honly : ∀ c ∈ g.blocks, c.kind = b.kind → c = b) : g.firstOf? b.kind = some b.id := by
  have hfind : g.blocks.find? (·.kind == b.kind) = some b := by
    cases hf : g.blocks.find? (·.kind == b.kind) with
    | none =>
      have hno := List.find?_eq_none.mp hf b hb
      simp at hno
    | some c =>
      have hkind : c.kind = b.kind := by simpa using List.find?_some hf
      rw [honly c (List.mem_of_find?_eq_some hf) hkind]
  unfold firstOf?
  rw [hfind, Option.map_some]

/-- A block that is left for one other block. -/
structure Leads (g : Graph) (id target : BlockId) : Prop where
  successor : g.successor? id = some target
  targets : ∀ t ∈ g.targets id, t = target

/-- A block that is left for one of two blocks, as its condition says. -/
structure Forks (g : Graph) (id yes no : BlockId) : Prop where
  whenTrue : g.branchTarget? id .whenTrue = some yes
  whenFalse : g.branchTarget? id .whenFalse = some no
  targets : ∀ t ∈ g.targets id, t = yes ∨ t = no

theorem mem_outgoing {g : Graph} {id : BlockId} {e : Edge} : e ∈ g.outgoing id ↔ e ∈ g.edges ∧ e.source = id := by
  unfold outgoing
  rw [List.mem_filter, beq_iff_eq]

theorem mem_targets_of_successor {g : Graph} {id target : BlockId} (h : g.successor? id = some target) :
    target ∈ g.targets id := by
  unfold successor? at h
  obtain ⟨e, he, rfl⟩ := Option.map_eq_some_iff.mp h
  exact List.mem_map_of_mem (List.mem_of_head? he)

theorem mem_targets_of_branchTarget {g : Graph} {id target : BlockId} {branch : Branch}
    (h : g.branchTarget? id branch = some target) : target ∈ g.targets id := by
  obtain ⟨e, he, rfl⟩ := Option.map_eq_some_iff.mp h
  refine List.mem_map_of_mem ?_
  rcases Option.or_eq_some_iff.mp he with he | ⟨-, he⟩
  · exact List.mem_of_find?_eq_some he
  · obtain ⟨label, -, he⟩ := List.exists_of_findSome?_eq_some he
    exact List.mem_of_find?_eq_some he

theorem leads_of_edges {g : Graph} {id target : BlockId} (h : ∃ e ∈ g.edges, e.source = id)
    (hall : ∀ e ∈ g.edges, e.source = id → e.target = target) : g.Leads id target := by
  have htarget : ∀ e ∈ g.outgoing id, e.target = target := by
    intro e he
    obtain ⟨he, hid⟩ := mem_outgoing.mp he
    exact hall e he hid
  refine ⟨?_, ?_⟩
  · obtain ⟨e, he, hid⟩ := h
    have hmem : e ∈ g.outgoing id := mem_outgoing.mpr ⟨he, hid⟩
    unfold successor?
    cases hout : g.outgoing id with
    | nil =>
      rw [hout] at hmem
      cases hmem
    | cons first rest =>
      rw [List.head?_cons, Option.map_some, htarget first (by rw [hout]; exact List.mem_cons_self)]
  · intro t ht
    unfold targets at ht
    obtain ⟨e, he, rfl⟩ := List.mem_map.mp ht
    exact htarget e he

/-- The tagged edges say where a branch leads. -/
theorem branchTarget?_of_edges {g : Graph} {id target : BlockId} {b : Branch}
    (h : ∃ e ∈ g.edges, e.source = id ∧ e.branch = some b)
    (hall : ∀ e ∈ g.edges, e.source = id → e.branch = some b → e.target = target) :
    g.branchTarget? id b = some target := by
  obtain ⟨e, he, hid, htag⟩ := h
  have hmem : e ∈ g.outgoing id := mem_outgoing.mpr ⟨he, hid⟩
  unfold branchTarget? branchEdge?
  cases hf : g.taggedEdge? id b with
  | none =>
    have hno := List.find?_eq_none.mp hf e hmem
    simp [htag] at hno
  | some found =>
    obtain ⟨hfound, hfrom⟩ := mem_outgoing.mp (List.mem_of_find?_eq_some hf)
    have hbranch : found.branch = some b := by simpa using List.find?_some hf
    rw [Option.some_or, Option.map_some, hall found hfound hfrom hbranch]

theorem forks_of_edges {g : Graph} {id yes no : BlockId}
    (hyes : ∃ e ∈ g.edges, e.source = id ∧ e.branch = some .whenTrue)
    (hno : ∃ e ∈ g.edges, e.source = id ∧ e.branch = some .whenFalse)
    (hall : ∀ e ∈ g.edges, e.source = id →
      (e.branch = some .whenTrue ∧ e.target = yes) ∨ (e.branch = some .whenFalse ∧ e.target = no)) :
    g.Forks id yes no := by
  refine ⟨branchTarget?_of_edges hyes ?_, branchTarget?_of_edges hno ?_, ?_⟩
  · intro e he hid htag
    rcases hall e he hid with ⟨_, ht⟩ | ⟨hother, _⟩
    · exact ht
    · rw [htag] at hother
      cases hother
  · intro e he hid htag
    rcases hall e he hid with ⟨hother, _⟩ | ⟨_, ht⟩
    · rw [htag] at hother
      cases hother
    · exact ht
  · intro t ht
    unfold targets at ht
    obtain ⟨e, he, rfl⟩ := List.mem_map.mp ht
    obtain ⟨he, hid⟩ := mem_outgoing.mp he
    rcases hall e he hid with ⟨_, ht⟩ | ⟨_, ht⟩
    · exact .inl ht
    · exact .inr ht

end Graph

/-! ### Scripts from the inside -/

namespace Script

/-- How a chart looks from the inside where a script is laid out in front of an exit. -/
inductive Laid (g : Graph) : BlockId → Script → Prop where
  | done {exit : BlockId} : Laid g exit done
  | simple {exit : BlockId} {kind : Simple} {node : Node} {next : Script}
      (hnode : g.block? node.id = some (node.block kind.kind)) (hleads : g.Leads node.id (next.entry exit))
      (hnext : Laid g exit next) : Laid g exit (simple kind node next)
  | choice {exit : BlockId} {test join : Node} {yes no next : Script}
      (htest : g.block? test.id = some (test.block .conditional))
      (hjoin : g.block? join.id = some (join.block .merge))
      (hforks : g.Forks test.id (yes.entry join.id) (no.entry join.id))
      (hleads : g.Leads join.id (next.entry exit))
      (hyes : Laid g join.id yes) (hno : Laid g join.id no) (hnext : Laid g exit next) :
      Laid g exit (choice test join yes no next)
  | loop {exit : BlockId} {kind : Looping} {head : Node} {body next : Script}
      (hhead : g.block? head.id = some (head.block kind.kind))
      (hforks : g.Forks head.id (body.entry head.id) (next.entry exit))
      (hbody : Laid g head.id body) (hnext : Laid g exit next) : Laid g exit (loop kind head body next)
  | doLoop {exit : BlockId} {entry test : Node} {body next : Script}
      (hentry : g.block? entry.id = some (entry.block .merge))
      (htest : g.block? test.id = some (test.block .doWhile))
      (hleads : g.Leads entry.id (body.entry test.id)) (hforks : g.Forks test.id entry.id (next.entry exit))
      (hbody : Laid g test.id body) (hnext : Laid g exit next) : Laid g exit (doLoop entry test body next)

/-- The blocks of a script are found by their numbers, and the edges that begin at them are the ones that the
script calls for. -/
structure Drawn (g : Graph) (exit : BlockId) (s : Script) : Prop where
  found : ∀ b ∈ s.blocks, g.block? b.id = some b
  has : ∀ e ∈ s.edges exit, ∃ e' ∈ g.edges, e'.bare = e
  own : ∀ e ∈ g.edges, e.source ∈ s.ids → e.bare ∈ s.edges exit

/-- A part of a drawn script is drawn, if no edge of the other parts begins at its blocks. -/
theorem Drawn.part {g : Graph} {exit exit' : BlockId} {s t : Script} (h : Drawn g exit s)
    (hblocks : ∀ b ∈ t.blocks, b ∈ s.blocks) (hedges : ∀ e ∈ t.edges exit', e ∈ s.edges exit)
    (hown : ∀ e ∈ s.edges exit, e.source ∈ t.ids → e ∈ t.edges exit') : Drawn g exit' t where
  found b hb := h.found b (hblocks b hb)
  has e he := h.has e (hedges e he)
  own := by
    intro e he hsource
    have hs : e.source ∈ s.ids := by
      obtain ⟨b, hb, hid⟩ := List.mem_map.mp hsource
      exact List.mem_map.mpr ⟨b, hblocks b hb, hid⟩
    exact hown e.bare (h.own e he hs) hsource

/-- An edge that a drawn script calls for is in the chart, with its tag. -/
theorem Drawn.edge {g : Graph} {exit : BlockId} {s : Script} (h : Drawn g exit s) {e : Edge}
    (he : e ∈ s.edges exit) : ∃ e' ∈ g.edges, e'.source = e.source ∧ e'.branch = e.branch := by
  obtain ⟨e', he', rfl⟩ := h.has e he
  exact ⟨e', he', rfl, rfl⟩

/-- A block of a drawn script is left for one block, if the script calls for no other edge at it. -/
theorem Drawn.leads {g : Graph} {exit id target : BlockId} {s : Script} (h : Drawn g exit s) (hid : id ∈ s.ids)
    (he : { source := id, target := target } ∈ s.edges exit)
    (honly : ∀ e ∈ s.edges exit, e.source = id → e.target = target) : g.Leads id target := by
  refine Graph.leads_of_edges ?_ ?_
  · obtain ⟨e, he, hsource, -⟩ := h.edge he
    exact ⟨e, he, hsource⟩
  · intro e he hsource
    exact honly e.bare (h.own e he (hsource ▸ hid)) hsource

/-- A block of a drawn script is left for one of two, if the script calls for no other edges at it. -/
theorem Drawn.forks {g : Graph} {exit id yes no : BlockId} {s : Script} (h : Drawn g exit s) (hid : id ∈ s.ids)
    (hyes : { source := id, target := yes, branch := some .whenTrue } ∈ s.edges exit)
    (hno : { source := id, target := no, branch := some .whenFalse } ∈ s.edges exit)
    (honly : ∀ e ∈ s.edges exit, e.source = id →
      (e.branch = some .whenTrue ∧ e.target = yes) ∨ (e.branch = some .whenFalse ∧ e.target = no)) :
    g.Forks id yes no := by
  refine Graph.forks_of_edges (h.edge hyes) (h.edge hno) ?_
  intro e he hsource
  exact honly e.bare (h.own e he (hsource ▸ hid)) hsource

/-- An edge of a script does not begin where the script has no block. -/
theorem source_ne {e : Edge} {exit id : BlockId} {s : Script} (h : e ∈ s.edges exit) (hid : id ∉ s.ids) :
    e.source ≠ id :=
  fun heq => hid (heq ▸ source_mem h)

theorem Drawn.of_simple {g : Graph} {exit : BlockId} {kind : Simple} {node : Node} {next : Script}
    (h : Drawn g exit (simple kind node next)) (hnode : node.id ∉ next.ids) :
    g.Leads node.id (next.entry exit) ∧ Drawn g exit next := by
  have hedges : ∀ e ∈ (simple kind node next).edges exit,
      e = { source := node.id, target := next.entry exit } ∨ e ∈ next.edges exit :=
    fun e he => List.mem_cons.mp he
  refine ⟨h.leads List.mem_cons_self List.mem_cons_self ?_, h.part ?_ ?_ ?_⟩
  · intro e he hsource
    rcases hedges e he with rfl | he
    · rfl
    · exact absurd hsource (source_ne he hnode)
  · exact fun b => List.mem_cons_of_mem _
  · exact fun e => List.mem_cons_of_mem _
  · intro e he hsource
    rcases hedges e he with rfl | he
    · exact absurd hsource hnode
    · exact he

theorem Drawn.of_choice {g : Graph} {exit : BlockId} {test join : Node} {yes no next : Script}
    (h : Drawn g exit (choice test join yes no next)) (hs : DistinctChoice test join yes no next) :
    (g.Forks test.id (yes.entry join.id) (no.entry join.id) ∧ g.Leads join.id (next.entry exit)) ∧
      Drawn g join.id yes ∧ Drawn g join.id no ∧ Drawn g exit next := by
  have hedges : ∀ e ∈ (choice test join yes no next).edges exit,
      e = { source := test.id, target := yes.entry join.id, branch := some .whenTrue } ∨
      e = { source := test.id, target := no.entry join.id, branch := some .whenFalse } ∨
      e = { source := join.id, target := next.entry exit } ∨
      e ∈ yes.edges join.id ∨ e ∈ no.edges join.id ∨ e ∈ next.edges exit := by
    intro e he
    simpa only [edges, List.mem_cons, List.mem_append, or_assoc] using he
  -- An edge of a part begins inside that part, so it is told from the others by its source.
  refine ⟨⟨h.forks ?_ ?_ ?_ ?_, h.leads ?_ ?_ ?_⟩, h.part ?_ ?_ ?_, h.part ?_ ?_ ?_, h.part ?_ ?_ ?_⟩
  · simp
  · simp [edges]
  · simp [edges]
  · intro e he hid
    rcases hedges e he with rfl | rfl | rfl | he | he | he
    · exact .inl ⟨rfl, rfl⟩
    · exact .inr ⟨rfl, rfl⟩
    · exact absurd hid.symm hs.test_join
    · exact absurd hid (source_ne he hs.test_yes)
    · exact absurd hid (source_ne he hs.test_no)
    · exact absurd hid (source_ne he hs.test_next)
  · simp
  · simp [edges]
  · intro e he hid
    rcases hedges e he with rfl | rfl | rfl | he | he | he
    · exact absurd hid hs.test_join
    · exact absurd hid hs.test_join
    · rfl
    · exact absurd hid (source_ne he hs.join_yes)
    · exact absurd hid (source_ne he hs.join_no)
    · exact absurd hid (source_ne he hs.join_next)
  · exact fun b hb => by simp [blocks, hb]
  · exact fun e he => by simp [edges, he]
  · intro e he hyes
    rcases hedges e he with rfl | rfl | rfl | he | he | he
    · exact absurd hyes hs.test_yes
    · exact absurd hyes hs.test_yes
    · exact absurd hyes hs.join_yes
    · exact he
    · exact absurd (source_mem he) (hs.yes_no hyes)
    · exact absurd (source_mem he) (hs.yes_next hyes)
  · exact fun b hb => by simp [blocks, hb]
  · exact fun e he => by simp [edges, he]
  · intro e he hno
    rcases hedges e he with rfl | rfl | rfl | he | he | he
    · exact absurd hno hs.test_no
    · exact absurd hno hs.test_no
    · exact absurd hno hs.join_no
    · exact absurd hno (hs.yes_no (source_mem he))
    · exact he
    · exact absurd (source_mem he) (hs.no_next hno)
  · exact fun b hb => by simp [blocks, hb]
  · exact fun e he => by simp [edges, he]
  · intro e he hnext
    rcases hedges e he with rfl | rfl | rfl | he | he | he
    · exact absurd hnext hs.test_next
    · exact absurd hnext hs.test_next
    · exact absurd hnext hs.join_next
    · exact absurd hnext (hs.yes_next (source_mem he))
    · exact absurd hnext (hs.no_next (source_mem he))
    · exact he

theorem Drawn.of_loop {g : Graph} {exit : BlockId} {kind : Looping} {head : Node} {body next : Script}
    (h : Drawn g exit (loop kind head body next)) (hs : DistinctLoop head body next) :
    g.Forks head.id (body.entry head.id) (next.entry exit) ∧ Drawn g head.id body ∧ Drawn g exit next := by
  have hedges : ∀ e ∈ (loop kind head body next).edges exit,
      e = { source := head.id, target := body.entry head.id, branch := some .whenTrue } ∨
      e = { source := head.id, target := next.entry exit, branch := some .whenFalse } ∨
      e ∈ body.edges head.id ∨ e ∈ next.edges exit := by
    intro e he
    simpa only [edges, List.mem_cons, List.mem_append] using he
  refine ⟨h.forks ?_ ?_ ?_ ?_, h.part ?_ ?_ ?_, h.part ?_ ?_ ?_⟩
  · simp
  · simp [edges]
  · simp [edges]
  · intro e he hid
    rcases hedges e he with rfl | rfl | he | he
    · exact .inl ⟨rfl, rfl⟩
    · exact .inr ⟨rfl, rfl⟩
    · exact absurd hid (source_ne he hs.head_body)
    · exact absurd hid (source_ne he hs.head_next)
  · exact fun b hb => by simp [blocks, hb]
  · exact fun e he => by simp [edges, he]
  · intro e he hbody
    rcases hedges e he with rfl | rfl | he | he
    · exact absurd hbody hs.head_body
    · exact absurd hbody hs.head_body
    · exact he
    · exact absurd (source_mem he) (hs.body_next hbody)
  · exact fun b hb => by simp [blocks, hb]
  · exact fun e he => by simp [edges, he]
  · intro e he hnext
    rcases hedges e he with rfl | rfl | he | he
    · exact absurd hnext hs.head_next
    · exact absurd hnext hs.head_next
    · exact absurd hnext (hs.body_next (source_mem he))
    · exact he

theorem Drawn.of_doLoop {g : Graph} {exit : BlockId} {entry test : Node} {body next : Script}
    (h : Drawn g exit (doLoop entry test body next)) (hs : DistinctDoLoop entry test body next) :
    (g.Leads entry.id (body.entry test.id) ∧ g.Forks test.id entry.id (next.entry exit)) ∧
      Drawn g test.id body ∧ Drawn g exit next := by
  have hedges : ∀ e ∈ (doLoop entry test body next).edges exit,
      e = { source := entry.id, target := body.entry test.id } ∨
      e = { source := test.id, target := entry.id, branch := some .whenTrue } ∨
      e = { source := test.id, target := next.entry exit, branch := some .whenFalse } ∨
      e ∈ body.edges test.id ∨ e ∈ next.edges exit := by
    intro e he
    simpa only [edges, List.mem_cons, List.mem_append] using he
  refine ⟨⟨h.leads ?_ ?_ ?_, h.forks ?_ ?_ ?_ ?_⟩, h.part ?_ ?_ ?_, h.part ?_ ?_ ?_⟩
  · simp
  · simp [edges]
  · intro e he hid
    rcases hedges e he with rfl | rfl | rfl | he | he
    · rfl
    · exact absurd hid.symm hs.entry_test
    · exact absurd hid.symm hs.entry_test
    · exact absurd hid (source_ne he hs.entry_body)
    · exact absurd hid (source_ne he hs.entry_next)
  · simp
  · simp [edges]
  · simp [edges]
  · intro e he hid
    rcases hedges e he with rfl | rfl | rfl | he | he
    · exact absurd hid hs.entry_test
    · exact .inl ⟨rfl, rfl⟩
    · exact .inr ⟨rfl, rfl⟩
    · exact absurd hid (source_ne he hs.test_body)
    · exact absurd hid (source_ne he hs.test_next)
  · exact fun b hb => by simp [blocks, hb]
  · exact fun e he => by simp [edges, he]
  · intro e he hbody
    rcases hedges e he with rfl | rfl | rfl | he | he
    · exact absurd hbody hs.entry_body
    · exact absurd hbody hs.test_body
    · exact absurd hbody hs.test_body
    · exact he
    · exact absurd (source_mem he) (hs.body_next hbody)
  · exact fun b hb => by simp [blocks, hb]
  · exact fun e he => by simp [edges, he]
  · intro e he hnext
    rcases hedges e he with rfl | rfl | rfl | he | he
    · exact absurd hnext hs.entry_next
    · exact absurd hnext hs.test_next
    · exact absurd hnext hs.test_next
    · exact absurd hnext (hs.body_next (source_mem he))
    · exact he

/-- **A drawn script is laid out**, by induction on the script. -/
theorem laid_of_drawn {g : Graph} {exit : BlockId} {s : Script} (h : Drawn g exit s) (hs : s.ids.Nodup) :
    Laid g exit s := by
  induction s generalizing exit with
  | done => exact .done
  | simple kind node next ih =>
    rw [ids_simple] at hs
    obtain ⟨hnode, hnodup⟩ := List.nodup_cons.mp hs
    obtain ⟨hleads, hnext⟩ := h.of_simple hnode
    exact .simple (h.found _ List.mem_cons_self) hleads (ih hnext hnodup)
  | choice test join yes no next ihy ihn ih =>
    have hs := distinctChoice_of_nodup hs
    obtain ⟨⟨hforks, hleads⟩, hyes, hno, hnext⟩ := h.of_choice hs
    obtain ⟨⟨htest, hjoin⟩, -⟩ := forall_blocks_choice.mp h.found
    exact .choice htest hjoin hforks hleads (ihy hyes hs.nodup_yes) (ihn hno hs.nodup_no) (ih hnext hs.nodup_next)
  | loop kind head body next ihb ih =>
    have hs := distinctLoop_of_nodup hs
    obtain ⟨hforks, hbody, hnext⟩ := h.of_loop hs
    exact .loop (h.found _ List.mem_cons_self) hforks (ihb hbody hs.nodup_body) (ih hnext hs.nodup_next)
  | doLoop entry test body next ihb ih =>
    have hs := distinctDoLoop_of_nodup hs
    obtain ⟨⟨hleads, hforks⟩, hbody, hnext⟩ := h.of_doLoop hs
    obtain ⟨⟨hentry, htest⟩, -⟩ := forall_blocks_doLoop.mp h.found
    exact .doLoop hentry htest hleads hforks (ihb hbody hs.nodup_body) (ih hnext hs.nodup_next)

end Script

/-! ### Charts that show outlines -/

namespace Graph.Shows

variable {g : Graph} {o : Outline}

theorem nodup (h : g.Shows o) : (g.blocks.map Block.id).Nodup :=
  (h.blocks.map Block.id).nodup_iff.mpr o.nodup

/-- Every block of the outline is found by its number. -/
theorem found (h : g.Shows o) {b : Block} (hb : b ∈ o.blocks) : g.block? b.id = some b :=
  Graph.block?_of_mem h.nodup (h.blocks.mem_iff.mpr hb)

theorem start?_eq (h : g.Shows o) : g.start? = some o.start.id := by
  refine Graph.firstOf?_eq (b := o.start.block .start) (h.blocks.mem_iff.mpr List.mem_cons_self) ?_
  intro c hc hkind
  rcases List.mem_cons.mp (h.blocks.mem_iff.mp hc) with rfl | hc
  · rfl
  · rcases List.mem_cons.mp hc with rfl | hc
    · cases hkind
    · exact absurd hkind (Script.kind_of_mem hc).1

theorem finish?_eq (h : g.Shows o) : g.finish? = some o.finish.id := by
  refine Graph.firstOf?_eq (b := o.finish.block .finish)
    (h.blocks.mem_iff.mpr (List.mem_cons_of_mem _ List.mem_cons_self)) ?_
  intro c hc hkind
  rcases List.mem_cons.mp (h.blocks.mem_iff.mp hc) with rfl | hc
  · cases hkind
  · rcases List.mem_cons.mp hc with rfl | hc
    · rfl
    · exact absurd hkind (Script.kind_of_mem hc).2

/-- The start block leads to the script. -/
theorem start_leads (h : g.Shows o) : g.Leads o.start.id (o.script.entry o.finish.id) := by
  refine Graph.leads_of_edges ?_ ?_
  · obtain ⟨e, he, hbare⟩ := List.mem_map.mp (h.edges.mem_iff.mpr List.mem_cons_self)
    exact ⟨e, he, congrArg Edge.source hbare⟩
  · intro e he hid
    rcases List.mem_cons.mp (h.edges.mem_iff.mp (List.mem_map_of_mem he)) with hb | hb
    · exact congrArg Edge.target hb
    · have hmem : e.bare.source ∈ o.script.ids := Script.source_mem hb
      change e.source ∈ o.script.ids at hmem
      rw [hid] at hmem
      exact absurd hmem o.start_not_mem

/-- **A chart that shows an outline has its script laid out in front of the end block.** -/
theorem laid (h : g.Shows o) : o.script.Laid g o.finish.id := by
  refine Script.laid_of_drawn ⟨?_, ?_, ?_⟩ o.script_nodup
  · intro b hb
    exact h.found (List.mem_cons_of_mem _ (List.mem_cons_of_mem _ hb))
  · intro e he
    exact List.mem_map.mp (h.edges.mem_iff.mpr (List.mem_cons_of_mem _ he))
  · intro e he hsource
    rcases List.mem_cons.mp (h.edges.mem_iff.mp (List.mem_map_of_mem he)) with hb | hb
    · have hid : e.source = o.start.id := congrArg Edge.source hb
      rw [hid] at hsource
      exact absurd hsource o.start_not_mem
    · exact hb

end Graph.Shows

end Flowchart
