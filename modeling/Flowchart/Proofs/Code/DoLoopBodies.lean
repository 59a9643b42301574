import Flowchart.Proofs.Code.DeadBlocks
import Flowchart.Proofs.Code.Following
import Flowchart.Proofs.Validated

/-!
# Loops that keep their bodies

The condition of a loop that tests at its end belongs behind the body.  If every way to the test leads through the block
at which the body begins, then a recovery that follows edges opens the loop before it could come to the test.  But it
does not only follow edges: behind a choice it goes on at a block that it has looked for, and behind a loop that tests
at its end it goes on from the test, whether it has come there or not.

* `Graph.Around` — a block can be come to without passing another one.
* `Recovery.Traces` — how code comes out of following the edges, with where the edges lead;
  **`Recovery.Followed.traces`** says that all code comes out in this way.
* `Code.parts`, `Code.head?` — the pieces of code, and the block with which it begins.
* `Code.reached`, `Code.connected` — the blocks that are come to in code; where it goes on without following an edge, it
  does so at a block to which an edge leads from one of them.
* `Graph.Owned` — a test whose loop is opened at the beginning of its body, and behind nothing else.
* `Recovery.Guarded` — what is so as long as the loop is not opened, and what is so afterwards;
  **`Recovery.Traces.keeps`** is the invariant.
* **`Graph.doLoops_keep_bodies`** — the conditions of such loops stand behind their bodies.
-/

namespace Flowchart

/-! ### Ways around a block -/

/-- A block can be come to from the start block without passing a certain other one. -/
inductive Graph.Around (g : Graph) (gate : BlockId) : BlockId → Prop where
  | start {id : BlockId} (h : g.start? = some id) (hne : id ≠ gate) : Around g gate id
  | step {id target : BlockId} (h : Around g gate id) (ht : target ∈ g.targets id) (hne : target ≠ gate) :
      Around g gate target

namespace Graph.Around

variable {g : Graph} {gate id : BlockId}

theorem ne (h : g.Around gate id) : id ≠ gate := by
  cases h with
  | start _ hne => exact hne
  | step _ _ hne => exact hne

/-- What can be come to stays within numbers that are only left by way of the block in between. -/
theorem mem {within : List BlockId} (hstart : ∀ start, g.start? = some start → start ≠ gate → start ∈ within)
    (hclosed : ∀ id ∈ within, ∀ target ∈ g.targets id, target ≠ gate → target ∈ within) (h : g.Around gate id) :
    id ∈ within := by
  induction h with
  | start h hne => exact hstart _ h hne
  | step _ ht hne ih => exact hclosed _ ih _ ht hne

end Graph.Around

/-! ### Pieces of code -/

namespace Code

/-- All the pieces of code: the code from each statement on, outer ones first. -/
def parts : Code → List Code
  | done => [done]
  | plain id statements next => plain id statements next :: next.parts
  | ifThen id condition body next => ifThen id condition body next :: body.parts ++ next.parts
  | ifElse id condition body other next =>
    ifElse id condition body other next :: body.parts ++ other.parts ++ next.parts
  | loop id header body next => loop id header body next :: body.parts ++ next.parts
  | doLoop entry test condition body next => doLoop entry test condition body next :: body.parts ++ next.parts
  | emptyDo id condition next => emptyDo id condition next :: next.parts

/-- The block with which code begins. -/
def head? : Code → Option BlockId
  | done => none
  | plain id _ _ => some id
  | ifThen id _ _ _ => some id
  | ifElse id _ _ _ _ => some id
  | loop id _ _ _ => some id
  | doLoop entry _ _ _ _ => some entry
  | emptyDo id _ _ => some id

/-- An edge leads to a block from one of some others. -/
def ledTo (g : Graph) (sources : List BlockId) (id : BlockId) : Bool :=
  sources.any fun source => (g.targets source).contains id

/-- The blocks that are come to behind a loop with its test at the end: the test is one of them if an edge leads to
it. -/
def passTest (g : Graph) (test : BlockId) (covered : List BlockId) : List BlockId :=
  if ledTo g covered test then test :: covered else covered

/-- The blocks that are come to in front of code and in it. -/
def reached (g : Graph) : List BlockId → Code → List BlockId
  | covered, done => covered
  | covered, plain id _ next => next.reached g (id :: covered)
  | covered, ifThen id _ body next => next.reached g (body.reached g (id :: covered))
  | covered, ifElse id _ body other next => next.reached g (other.reached g (body.reached g (id :: covered)))
  | covered, loop id _ body next => next.reached g (body.reached g (id :: covered))
  | covered, doLoop _ test _ body next => next.reached g (passTest g test (body.reached g covered))
  | covered, emptyDo id _ next => next.reached g (id :: covered)

/-- Where code goes on behind a choice, an edge leads to the block with which it goes on from one that was come to; and
where it goes on behind a loop with its test at the end, such an edge leads to the test.  `covered` are the blocks in
front of the code. -/
def connected (g : Graph) : List BlockId → Code → Bool
  | _, done => true
  | covered, plain id _ next => next.connected g (id :: covered)
  | covered, ifThen id _ body next =>
    let inside := body.reached g (id :: covered)
    body.connected g (id :: covered) && next.head?.all (ledTo g inside) && next.connected g inside
  | covered, ifElse id _ body other next =>
    let inside := body.reached g (id :: covered)
    let both := other.reached g inside
    body.connected g (id :: covered) && other.connected g inside && next.head?.all (ledTo g both)
      && next.connected g both
  | covered, loop id _ body next =>
    body.connected g (id :: covered) && next.connected g (body.reached g (id :: covered))
  | covered, doLoop _ test _ body next =>
    let inside := body.reached g covered
    body.connected g covered && (next.head?.isNone || ledTo g inside test) && next.connected g (passTest g test inside)
  | covered, emptyDo id _ next => next.connected g (id :: covered)

end Code

namespace Recovery

variable {r : Recovery} {walls : List BlockId} {p q : Progress} {id : BlockId}

/-! ### How code comes out, and where the edges lead -/

/-- How code comes out of following the edges: the walls, the block from which on the code is wanted, the progress
before, the code, and the progress after. -/
inductive Traces (r : Recovery) : List BlockId → Option BlockId → Progress → Code → Progress → Prop where
  /-- The path ends, or it leads to a wall or to a block that was covered. -/
  | rests {walls : List BlockId} {start : Option BlockId} {p : Progress}
      (hrests : ∀ id ∈ start, id ∈ walls ∨ id ∈ p.visited) : Traces r walls start p .done p
  | misses {walls : List BlockId} {id : BlockId} {p : Progress} (hnone : r.graph.block? id = none) :
      Traces r walls (some id) p .done (p.cover id)
  /-- A loop is opened where its body begins; code goes on behind the test. -/
  | opens {walls : List BlockId} {id test : BlockId} {p p₁ q : Progress} {body next : Code} (hwall : id ∉ walls)
      (hfresh : id ∉ p.opened) (htest : (r.doLoops.reverse.find? (·.1 == id)).map Prod.snd = some test)
      (hbody : Traces r (test :: walls) (some id) (p.openLoop id) body p₁)
      (hnext : Traces r walls (r.graph.branchTarget? test .whenFalse) (p₁.cover test) next q) :
      Traces r walls (some id) p (.doLoop id test (r.testCondition test) body next) q
  | plain {walls : List BlockId} {id : BlockId} {target : Option BlockId} {statements : List Statement}
      {p q : Progress} {next : Code} (hwall : id ∉ walls) (hopen : r.testToOpen? id p = none) (hfresh : id ∉ p.visited)
      (hleads : ∀ t ∈ target, t ∈ r.graph.targets id) (hnext : Traces r walls target (p.cover id) next q) :
      Traces r walls (some id) p (.plain id statements next) q
  | ifThen {walls : List BlockId} {id : BlockId} {yes after : Option BlockId} {condition : Text} {p p₁ q : Progress}
      {body next : Code} (hwall : id ∉ walls) (hopen : r.testToOpen? id p = none) (hfresh : id ∉ p.visited)
      (hyes : ∀ t ∈ yes, t ∈ r.graph.targets id) (hbody : Traces r walls yes (p.cover id) body p₁)
      (hnext : Traces r walls after p₁ next q) : Traces r walls (some id) p (.ifThen id condition body next) q
  | ifElse {walls : List BlockId} {id : BlockId} {yes no after : Option BlockId} {condition : Text}
      {p p₁ p₂ q : Progress} {body other next : Code} (hwall : id ∉ walls) (hopen : r.testToOpen? id p = none)
      (hfresh : id ∉ p.visited) (hyes : ∀ t ∈ yes, t ∈ r.graph.targets id) (hno : ∀ t ∈ no, t ∈ r.graph.targets id)
      (hbody : Traces r walls yes (p.cover id) body p₁) (hother : Traces r walls no p₁ other p₂)
      (hnext : Traces r walls after p₂ next q) :
      Traces r walls (some id) p (.ifElse id condition body other next) q
  | loop {walls : List BlockId} {id : BlockId} {yes no : Option BlockId} {header : Text} {p p₁ q : Progress}
      {body next : Code} (hwall : id ∉ walls) (hopen : r.testToOpen? id p = none) (hfresh : id ∉ p.visited)
      (hyes : ∀ t ∈ yes, t ∈ r.graph.targets id) (hno : ∀ t ∈ no, t ∈ r.graph.targets id)
      (hbody : Traces r (id :: walls) yes (p.cover id) body p₁) (hnext : Traces r walls no p₁ next q) :
      Traces r walls (some id) p (.loop id header body next) q
  | emptyDo {walls : List BlockId} {id : BlockId} {no : Option BlockId} {condition : Text} {p q : Progress}
      {next : Code} (hwall : id ∉ walls) (hopen : r.testToOpen? id p = none) (hfresh : id ∉ p.visited)
      (hno : ∀ t ∈ no, t ∈ r.graph.targets id) (hnext : Traces r walls no (p.cover id) next q) :
      Traces r walls (some id) p (.emptyDo id condition next) q

/-- **All code comes out in this way.** -/
theorem Followed.traces {start : Option BlockId} {c : Code} (h : r.Followed walls start p c q) :
    r.Traces walls start p c q := by
  have hsuccessor : ∀ id, ∀ t ∈ r.graph.successor? id, t ∈ r.graph.targets id := fun _ _ =>
    Graph.mem_targets_of_successor
  have hbranch : ∀ id branch, ∀ t ∈ r.graph.branchTarget? id branch, t ∈ r.graph.targets id := fun _ _ _ =>
    Graph.mem_targets_of_branchTarget
  induction h with
  | rests hrests => exact .rests hrests
  | misses hnone => exact .misses hnone
  | @opens _ id _ p _ _ _ _ hwall htest _ _ ihb ih =>
    have hfresh := (mem_of_testToOpen? htest).1
    have hopened : ¬p.opened.contains id = true := by simpa using hfresh
    rw [testToOpen?, if_neg hopened] at htest
    exact .opens hwall hfresh htest ihb ih
  | remark h _ _ ih | plain h _ _ ih => exact .plain h.outside h.unopened h.fresh (hsuccessor _) ih
  | @finish walls id p _ h _ =>
    have hrests : r.Traces walls none (p.cover id) .done (p.cover id) := .rests (by rintro _ ⟨⟩)
    exact .plain h.outside h.unopened h.fresh (by rintro _ ⟨⟩) hrests
  | ifThen h _ _ _ _ ihb ih => exact .ifThen h.outside h.unopened h.fresh (hbranch _ _) ihb ih
  | ifElse h _ hno _ _ _ ihb iho ih =>
    exact .ifElse h.outside h.unopened h.fresh (hbranch _ _) (hno ▸ hbranch _ _) ihb iho ih
  | whileLoop h _ _ _ ihb ih | forLoop h _ _ _ ihb ih =>
    exact .loop h.outside h.unopened h.fresh (hbranch _ _) (hbranch _ _) ihb ih
  | emptyDo h _ _ ih => exact .emptyDo h.outside h.unopened h.fresh (hbranch _ _) ih

/-- What is left open there makes no difference to what is covered and opened. -/
theorem Traces.unfolds {start : Option BlockId} {c : Code} (h : r.Traces walls start p c q) :
    r.Unfolds walls start p c q := by
  induction h with
  | rests => exact .rests
  | misses => exact .misses
  | @opens _ id test _ _ _ _ _ _ hfresh htest _ _ ihb ih =>
    obtain ⟨pair, hfind, rfl⟩ := Option.map_eq_some_iff.mp htest
    have hkey : pair.1 = id := by simpa using List.find?_some hfind
    exact .opens hfresh (hkey ▸ List.mem_reverse.mp (List.mem_of_find?_eq_some hfind)) ihb ih
  | plain _ _ hfresh _ _ ih => exact .plain hfresh ih
  | ifThen _ _ hfresh _ _ _ ihb ih => exact .ifThen hfresh ihb ih
  | ifElse _ _ hfresh _ _ _ _ _ ihb iho ih => exact .ifElse hfresh ihb iho ih
  | loop _ _ hfresh _ _ _ _ ihb ih => exact .loop hfresh ihb ih
  | emptyDo _ _ hfresh _ _ ih => exact .emptyDo hfresh ih

/-- What was covered stays covered. -/
theorem Traces.visited_subset {start : Option BlockId} {c : Code} (h : r.Traces walls start p c q) :
    p.visited ⊆ q.visited := h.unfolds.adds.1.mono

/-- So it is with the loops that were opened. -/
theorem Traces.opened_subset {start : Option BlockId} {c : Code} (h : r.Traces walls start p c q) :
    p.opened ⊆ q.opened := h.unfolds.adds.2.1.mono

/-- Code begins with the block from which on it is wanted. -/
theorem Traces.start_eq {start : Option BlockId} {c : Code} (h : r.Traces walls start p c q) (hid : c.head? = some id) :
    start = some id := by
  cases h with
  | rests | misses => cases hid
  | opens | plain | ifThen | ifElse | loop | emptyDo => exact hid

/-- A block at which nothing is opened is covered, unless it is a wall or was covered before. -/
theorem Traces.mem_blocks {c : Code} {b : Block} (h : r.Traces walls (some id) p c q) (hwall : id ∉ walls)
    (hfresh : id ∉ p.visited) (hopened : id ∈ p.opened) (hb : r.graph.block? id = some b) : id ∈ c.blocks := by
  cases h with
  | rests hrests => exact absurd (hrests id rfl) (by simp [hwall, hfresh])
  | misses hnone =>
    rw [hb] at hnone
    cases hnone
  | opens _ hfresh => exact absurd hopened hfresh
  | plain | ifThen | ifElse | loop | emptyDo => simp [Code.blocks]

end Recovery

/-! ### Tests whose loops are opened in time -/

/-- The loop of a test is the one that is opened at the beginning of its body, and there is no way to the test but
through that block.  The block is no such test itself. -/
structure Graph.Owned (g : Graph) (entry test : BlockId) : Prop where
  located : ∃ b, g.block? entry = some b
  ne : entry ≠ test
  gated : ¬g.Around entry test
  owner : g.testAt? entry = some test
  unowned : ∀ id, g.testAt? id ≠ some entry

/-- Of a piece of code: the condition of a test stands behind the body that belongs to it, or elsewhere not at all. -/
def Code.Closes (entry test : BlockId) (condition : Text) : Code → Prop
  | .emptyDo id _ _ => id ≠ test
  | .doLoop id t written body _ => t = test → id = entry ∧ written = condition ∧ entry ∈ body.blocks
  | _ => True

namespace Recovery

/-- What is so where code is wanted.  Behind the beginning of the body the test is a wall or was covered.  Before it, no
block was covered to which there is no way around it. -/
structure Guarded (g : Graph) (entry test : BlockId) (walls covered : List BlockId) (p : Progress) : Prop where
  behind : entry ∈ p.opened → test ∈ walls ∨ test ∈ p.visited
  ahead : entry ∉ p.opened → entry ∉ p.visited
  around : entry ∉ p.opened → ∀ id ∈ covered, g.Around entry id

namespace Guarded

variable {g : Graph} {entry test id : BlockId} {walls covered : List BlockId} {p : Progress}

/-- Another wall is put up. -/
theorem wall (h : Guarded g entry test walls covered p) (id : BlockId) :
    Guarded g entry test (id :: walls) covered p where
  behind hopened := (h.behind hopened).imp_left (List.mem_cons_of_mem id)
  ahead := h.ahead
  around := h.around

/-- A wall is taken down that was covered. -/
theorem unwall (h : Guarded g entry test (id :: walls) covered p) (hid : id ∈ p.visited) :
    Guarded g entry test walls covered p where
  behind hopened := by
    rcases h.behind hopened with hwall | hvisited
    · rcases List.mem_cons.mp hwall with rfl | hwall
      · exact .inr hid
      · exact .inl hwall
    · exact .inr hvisited
  ahead := h.ahead
  around := h.around

/-- A block counts as covered, be there a way to it or not. -/
theorem note (h : Guarded g entry test walls covered p) (hid : entry ∉ p.opened → id ≠ entry) :
    Guarded g entry test walls covered (p.cover id) where
  behind hopened := (h.behind hopened).imp_right (List.mem_cons_of_mem id)
  ahead hnot hmem := (List.mem_cons.mp hmem).elim (hid hnot).symm (h.ahead hnot)
  around := h.around

/-- A block is covered to which there is a way around. -/
theorem cover (h : Guarded g entry test walls covered p) (hid : entry ∉ p.opened → g.Around entry id) :
    Guarded g entry test walls (id :: covered) (p.cover id) where
  behind := (h.note fun hnot => (hid hnot).ne).behind
  ahead := (h.note fun hnot => (hid hnot).ne).ahead
  around hnot := List.forall_mem_cons.mpr ⟨hid hnot, h.around hnot⟩

/-- The loop of the test is opened. -/
theorem openOwn (g : Graph) (entry test : BlockId) (walls covered : List BlockId) (p : Progress) :
    Guarded g entry test (test :: walls) covered (p.openLoop entry) where
  behind _ := .inl List.mem_cons_self
  ahead hnot := absurd List.mem_cons_self hnot
  around hnot := absurd List.mem_cons_self hnot

/-- Another loop is opened. -/
theorem openOther (h : Guarded g entry test walls covered p) (hid : id ≠ entry) :
    Guarded g entry test walls covered (p.openLoop id) where
  behind hopened := h.behind ((List.mem_cons.mp hopened).resolve_left (Ne.symm hid))
  ahead hnot := h.ahead fun hopened => hnot (List.mem_cons_of_mem id hopened)
  around hnot := h.around fun hopened => hnot (List.mem_cons_of_mem id hopened)

/-- Where an edge leads from a covered block, the body begins, or there is a way around. -/
theorem of_ledTo (h : Guarded g entry test walls covered p) (hnot : entry ∉ p.opened)
    (hled : Code.ledTo g covered id = true) : id = entry ∨ g.Around entry id := by
  obtain ⟨source, hsource, ht⟩ := List.any_eq_true.mp hled
  by_cases hid : id = entry
  · exact .inl hid
  · exact .inr (.step (h.around hnot source hsource) (by simpa using ht) hid)

/-- Behind the body of a loop that tests at its end, the test counts as covered and is no wall any more. -/
theorem passTest (h : Guarded g entry test (id :: walls) covered p) (hid : entry ∉ p.opened → id ≠ entry) :
    Guarded g entry test walls (Code.passTest g id covered) (p.cover id) := by
  refine Guarded.unwall ?_ List.mem_cons_self
  unfold Code.passTest
  split
  · next hled => exact h.cover fun hnot => (h.of_ledTo hnot hled).resolve_left (hid hnot)
  · exact h.note hid

end Guarded

/-- What holds of code that comes out between two points, told by the pieces and the loops of the code and by the blocks
that are come to. -/
structure Keeps (r : Recovery) (entry test : BlockId) (walls : List BlockId) (p : Progress) (parts : List Code)
    (loops : List (BlockId × BlockId)) (covered : List BlockId) (q : Progress) : Prop where
  guarded : Guarded r.graph entry test walls covered q
  closes : ∀ part ∈ parts, part.Closes entry test (r.testCondition test)
  opens : entry ∈ q.opened → entry ∈ p.opened ∨ (entry, test) ∈ loops

namespace Keeps

variable {r : Recovery} {entry test id : BlockId} {walls walls' covered covered' : List BlockId}
  {parts parts' : List Code} {loops loops' : List (BlockId × BlockId)} {p p₁ q : Progress}

/-- Code in two pieces, one behind the other. -/
theorem append (h : r.Keeps entry test walls' p parts loops covered p₁)
    (h' : r.Keeps entry test walls p₁ parts' loops' covered' q) :
    r.Keeps entry test walls p (parts ++ parts') (loops ++ loops') covered' q where
  guarded := h'.guarded
  closes := List.forall_mem_append.mpr ⟨h.closes, h'.closes⟩
  opens hopened := by
    rcases h'.opens hopened with hopened | hloop
    · exact (h.opens hopened).imp_right (List.mem_append_left _)
    · exact .inr (List.mem_append_right _ hloop)

/-- The piece of which these are the parts, if it covers a block. -/
theorem piece {part : Code} (h : r.Keeps entry test walls (p.cover id) parts loops covered q)
    (hpart : part.Closes entry test (r.testCondition test)) :
    r.Keeps entry test walls p (part :: parts) loops covered q where
  guarded := h.guarded
  closes := List.forall_mem_cons.mpr ⟨hpart, h.closes⟩
  opens := h.opens

/-- The wall around a body is taken down, as what tests is covered. -/
theorem unwall (h : r.Keeps entry test (id :: walls) p parts loops covered q) (hid : id ∈ q.visited) :
    r.Keeps entry test walls p parts loops covered q where
  guarded := h.guarded.unwall hid
  closes := h.closes
  opens := h.opens

/-- So is the wall around a body with its test at the end. -/
theorem passTest (h : r.Keeps entry test (id :: walls) p parts loops covered q) (hid : entry ∉ q.opened → id ≠ entry) :
    r.Keeps entry test walls p parts loops (Code.passTest r.graph id covered) (q.cover id) where
  guarded := h.guarded.passTest hid
  closes := h.closes
  opens := h.opens

end Keeps

end Recovery

namespace Graph.Owned

open Recovery

variable {g : Graph} {entry test id : BlockId} {functions : FunctionTable} {typing : Typing} {p : Progress}

/-- Each loop has its body in one place. -/
theorem entry_eq (hown : g.Owned entry test) (h : g.testAt? id = some test) : id = entry := by
  have hloop : ∀ i, g.testAt? i = some test → g.bodyEntry? test = some i := by
    intro i hi
    obtain ⟨pair, hfind, rfl⟩ := Option.map_eq_some_iff.mp hi
    have hkey : pair.1 = i := by simpa using List.find?_some hfind
    rw [← hkey]
    exact bodyEntry?_of_mem (List.mem_reverse.mp (List.mem_of_find?_eq_some hfind))
  exact Option.some.inj ((hloop id h).symm.trans (hloop entry hown.owner))

/-- At the beginning of the body the loop is opened, and no block is covered. -/
theorem around (hown : g.Owned entry test) (hopen : (g.recovery functions typing).testToOpen? id p = none)
    (hnot : entry ∉ p.opened) (hid : id = entry ∨ g.Around entry id) : g.Around entry id := by
  refine hid.resolve_left ?_
  rintro rfl
  have hopened : ¬p.opened.contains id = true := by simpa using hnot
  rw [testToOpen?, if_neg hopened] at hopen
  exact absurd (hown.owner.symm.trans hopen) (by simp)

/-- Behind a covered block, the body begins, or there is a way around. -/
theorem step {target : Option BlockId} {walls : List BlockId} {c : Code} {q : Progress}
    (h : (g.recovery functions typing).Traces walls target p c q)
    (hleads : ∀ t ∈ target, t ∈ g.targets id) (hid : g.Around entry id) :
    ∀ t ∈ c.head?, t = entry ∨ g.Around entry t := by
  intro t ht
  have htarget : t ∈ g.targets id := hleads t (h.start_eq ht)
  by_cases hne : t = entry
  · exact .inl hne
  · exact .inr (.step hid htarget hne)

end Graph.Owned

namespace Recovery

variable {g : Graph} {entry test : BlockId} {functions : FunctionTable} {typing : Typing}

/-- Code keeps what holds at the point at which it is wanted, if that is the beginning of the body or there is a way
around. -/
def Keeping (r : Recovery) (entry test : BlockId) (walls : List BlockId) (p : Progress) (c : Code) (q : Progress) :
    Prop :=
  ∀ covered, Guarded r.graph entry test walls covered p →
    (entry ∉ p.opened → ∀ id ∈ c.head?, id = entry ∨ r.graph.Around entry id) → c.connected r.graph covered = true →
    r.Keeps entry test walls p c.parts c.loops (c.reached r.graph covered) q

variable {walls : List BlockId} {id : BlockId} {p p₁ q : Progress} {body next : Code}

/-- The loop of the test is opened, and the condition of the test stands behind the body. -/
theorem keeps_own (hown : g.Owned entry test) (hwall : entry ∉ walls) (hfresh : entry ∉ p.opened)
    (hbody : (g.recovery functions typing).Traces (test :: walls) (some entry) (p.openLoop entry) body p₁)
    (ihb : (g.recovery functions typing).Keeping entry test (test :: walls) (p.openLoop entry) body p₁)
    (ih : (g.recovery functions typing).Keeping entry test walls (p₁.cover test) next q) :
    (g.recovery functions typing).Keeping entry test walls p
      (.doLoop entry test ((g.recovery functions typing).testCondition test) body next) q := by
  intro covered hguard _ hconnected
  obtain ⟨b, hb⟩ := hown.located
  have hopened : entry ∈ (p.openLoop entry).opened := List.mem_cons_self
  have hopened₁ : entry ∈ p₁.opened := hbody.opened_subset hopened
  have hmem : entry ∈ body.blocks := by
    refine hbody.mem_blocks ?_ (hguard.ahead hfresh) hopened hb
    rw [List.mem_cons, not_or]
    exact ⟨hown.ne, hwall⟩
  simp only [Code.connected, Bool.and_eq_true] at hconnected
  have hbody' := ihb covered (.openOwn g entry test walls covered p) (fun hnot => absurd hopened hnot) hconnected.1.1
  have hpassed := hbody'.passTest fun hnot => absurd hopened₁ hnot
  have hboth := hpassed.append (ih _ hpassed.guarded (fun hnot => absurd hopened₁ hnot) hconnected.2)
  exact ⟨hboth.guarded, List.forall_mem_cons.mpr ⟨fun _ => ⟨rfl, rfl, hmem⟩, hboth.closes⟩,
    fun _ => .inr List.mem_cons_self⟩

/-- Another loop is opened. -/
theorem keeps_other {t : BlockId} (hown : g.Owned entry test) (hid : id ≠ entry) (htest : g.testAt? id = some t)
    (hbody : (g.recovery functions typing).Traces (t :: walls) (some id) (p.openLoop id) body p₁)
    (hnext : (g.recovery functions typing).Traces walls (g.branchTarget? t .whenFalse) (p₁.cover t) next q)
    (ihb : (g.recovery functions typing).Keeping entry test (t :: walls) (p.openLoop id) body p₁)
    (ih : (g.recovery functions typing).Keeping entry test walls (p₁.cover t) next q) :
    (g.recovery functions typing).Keeping entry test walls p
      (.doLoop id t ((g.recovery functions typing).testCondition t) body next) q := by
  intro covered hguard hpos hconnected
  have hentry : t ≠ entry := by
    rintro rfl
    exact hown.unowned id htest
  simp only [Code.connected, Bool.and_eq_true, Bool.or_eq_true] at hconnected
  obtain ⟨⟨hconnected, hled⟩, hconnected'⟩ := hconnected
  have hbody' := ihb covered ((hguard.openOther hid).wall t) (fun hnot i hi => by
    cases hbody.start_eq hi
    exact hpos (fun hopened => hnot (List.mem_cons_of_mem id hopened)) id rfl) hconnected
  have hpassed := hbody'.passTest fun _ => hentry
  have hnext' := ih _ hpassed.guarded (fun hnot i hi => by
    -- If there is code behind the loop, an edge leads to the test, and so there is a way around to it.
    have hled' : Code.ledTo g (body.reached g covered) t = true := by
      refine hled.resolve_left fun hnone => ?_
      rw [Option.mem_def.mp hi] at hnone
      cases hnone
    have haround : g.Around entry t := (hbody'.guarded.of_ledTo hnot hled').resolve_left hentry
    exact Graph.Owned.step hnext (fun _ => Graph.mem_targets_of_branchTarget) haround i hi) hconnected'
  have hboth := hpassed.append hnext'
  refine ⟨hboth.guarded, List.forall_mem_cons.mpr ⟨fun ht => ?_, hboth.closes⟩, fun hopened => ?_⟩
  · exact absurd (hown.entry_eq (ht ▸ htest)) hid
  · exact (hboth.opens hopened).imp (fun hmem => (List.mem_cons.mp hmem).resolve_left (Ne.symm hid))
      (List.mem_cons_of_mem _)

/-- **The condition of a test stands behind its body, and nowhere else**, in all code that comes out between two points.
The induction is on how it comes out. -/
theorem Traces.keeps (hown : g.Owned entry test) {start : Option BlockId} {c : Code}
    (h : (g.recovery functions typing).Traces walls start p c q) :
    (g.recovery functions typing).Keeping entry test walls p c q := by
  induction h with
  | rests =>
    intro covered hguard _ _
    exact ⟨hguard, List.forall_mem_singleton.mpr trivial, .inl⟩
  | misses hnone =>
    intro covered hguard _ _
    refine ⟨hguard.note fun _ heq => ?_, List.forall_mem_singleton.mpr trivial, .inl⟩
    obtain ⟨b, hb⟩ := hown.located
    rw [← heq] at hb
    exact absurd (hb.symm.trans hnone) (by simp)
  | @opens walls id t p p₁ q body next hwall hfresh htest hbody hnext ihb ih =>
    by_cases hid : id = entry
    · subst hid
      obtain rfl : t = test := Option.some.inj (htest.symm.trans hown.owner)
      exact keeps_own hown hwall hfresh hbody ihb ih
    · exact keeps_other hown hid htest hbody hnext ihb ih
  | @plain walls id target statements p q next hwall hopen hfresh hleads hnext ih =>
    intro covered hguard hpos hconnected
    have haround := fun hnot => hown.around hopen hnot (hpos hnot id rfl)
    have hnext' := ih _ (hguard.cover haround) (fun hnot => Graph.Owned.step hnext hleads (haround hnot)) hconnected
    exact hnext'.piece trivial
  | @ifThen walls id yes after condition p p₁ q body next hwall hopen hfresh hyes hbody hnext ihb ih =>
    intro covered hguard hpos hconnected
    simp only [Code.connected, Bool.and_eq_true] at hconnected
    obtain ⟨⟨hconnected, hled⟩, hconnected'⟩ := hconnected
    have haround := fun hnot => hown.around hopen hnot (hpos hnot id rfl)
    have hbody' := ihb _ (hguard.cover haround) (fun hnot => Graph.Owned.step hbody hyes (haround hnot)) hconnected
    have hnext' := ih _ hbody'.guarded
      (fun hnot i hi => hbody'.guarded.of_ledTo hnot ((Option.all_eq_true _ _).mp hled i hi)) hconnected'
    exact (hbody'.append hnext').piece trivial
  | @ifElse walls id yes no after condition p p₁ p₂ q body other next hwall hopen hfresh hyes hno hbody hother hnext ihb
      iho ih =>
    intro covered hguard hpos hconnected
    simp only [Code.connected, Bool.and_eq_true] at hconnected
    obtain ⟨⟨⟨hconnected, hconnected'⟩, hled⟩, hconnected''⟩ := hconnected
    have haround := fun hnot => hown.around hopen hnot (hpos hnot id rfl)
    have hbody' := ihb _ (hguard.cover haround) (fun hnot => Graph.Owned.step hbody hyes (haround hnot)) hconnected
    have hother' := iho _ hbody'.guarded
      (fun hnot => Graph.Owned.step hother hno (haround fun hopened => hnot (hbody.opened_subset hopened))) hconnected'
    have hnext' := ih _ hother'.guarded
      (fun hnot i hi => hother'.guarded.of_ledTo hnot ((Option.all_eq_true _ _).mp hled i hi)) hconnected''
    exact ((hbody'.append hother').append hnext').piece trivial
  | @loop walls id yes no header p p₁ q body next hwall hopen hfresh hyes hno hbody hnext ihb ih =>
    intro covered hguard hpos hconnected
    simp only [Code.connected, Bool.and_eq_true] at hconnected
    have haround := fun hnot => hown.around hopen hnot (hpos hnot id rfl)
    have hbody' := ihb _ ((hguard.cover haround).wall id)
      (fun hnot => Graph.Owned.step hbody hyes (haround hnot)) hconnected.1
    have hdown := hbody'.unwall (hbody.visited_subset List.mem_cons_self)
    have hnext' := ih _ hdown.guarded
      (fun hnot => Graph.Owned.step hnext hno (haround fun hopened => hnot (hbody.opened_subset hopened))) hconnected.2
    exact (hdown.append hnext').piece trivial
  | @emptyDo walls id no condition p q next hwall hopen hfresh hno hnext ih =>
    intro covered hguard hpos hconnected
    have haround := fun hnot => hown.around hopen hnot (hpos hnot id rfl)
    have hnext' := ih _ (hguard.cover haround) (fun hnot => Graph.Owned.step hnext hno (haround hnot)) hconnected
    refine hnext'.piece ?_
    -- A test that is neither a wall nor covered is reached before the body, and there is no way around that.
    rintro rfl
    by_cases hopened : entry ∈ p.opened
    · exact (hguard.behind hopened).elim hwall hfresh
    · exact hown.gated (haround hopened)

end Recovery

/-! ### Programs that pass the checks -/

/-- What makes a test of a chart one of those whose loops are opened in time. -/
theorem Graph.Sound.owned {g : Graph} (hg : g.Sound) {d : Block} {entry : BlockId} (hd : g.block? d.id = some d)
    (hkind : d.kind = .doWhile) (hentry : g.branchTarget? d.id .whenTrue = some entry) (hne : entry ≠ d.id)
    (hgate : ¬g.Around entry d.id) (hlast : ∀ test, g.testAt? entry = some test → test = d.id)
    (hunowned : ∀ id, g.testAt? id ≠ some entry) : g.Owned entry d.id where
  located := by
    obtain ⟨e, he, rfl⟩ := List.mem_map.mp (mem_targets_of_branchTarget hentry)
    exact hg.target e (List.mem_of_mem_filter he)
  ne := hne
  gated := hgate
  owner := by
    have hbody : g.bodyEntry? d.id = some entry := by
      have hfilter : (g.branchTarget? d.id .whenTrue).filter (· != d.id) = some entry := by
        rw [hentry]
        exact if_pos (by simpa using hne)
      unfold bodyEntry?
      rw [hfilter]
    have hcloses : g.closesAt entry d = true := closesAt_iff.mpr ⟨hkind, hbody⟩
    have hmem : d ∈ g.blocks.reverse := List.mem_reverse.mpr (mem_of_block? hd).1
    obtain ⟨b, hb⟩ := Option.isSome_iff_exists.mp (List.find?_isSome.mpr ⟨d, hmem, hcloses⟩)
    have htest : g.testAt? entry = some b.id := by
      rw [testAt?_eq, hb]
      rfl
    rw [htest, hlast b.id htest]
  unowned := hunowned

/-- **Loops that test at their end keep their bodies.**  In a chart of a program that passes the checks, let every way
to a test lead through the block at which the body of its loop begins, another one than the test.  Let no later test
have the body that begins there, and let the block be no such test itself.  There is code for the chart, and this is
what is printed.  If this code does not go on at blocks that it has not come to, then the condition of the test is never
written for a loop without a body.  It is only written at the end of a loop that was opened at that block, and the block
is in the body; and if the block is in the code at all, this loop is. -/
theorem Graph.doLoops_keep_bodies {p : Program} (hp : p.validate = .ok ()) {g : Graph} (hg : g ∈ p.charts) {d : Block}
    {entry : BlockId} (hd : g.block? d.id = some d) (hkind : d.kind = .doWhile)
    (hentry : g.branchTarget? d.id .whenTrue = some entry) (hne : entry ≠ d.id) (hgate : ¬g.Around entry d.id)
    (hlast : ∀ test, g.testAt? entry = some test → test = d.id) (hunowned : ∀ id, g.testAt? id ≠ some entry)
    (style : CodeStyle) (functions : FunctionTable) (parameters : List Parameter) :
    ∃ code, g.code functions (g.typing functions parameters) = some code ∧
      g.body style functions parameters =
        (g.typing functions parameters).locals.map (fun v => ⟨1, style.declaration v.1 v.2⟩) ++ code.lines 1 ∧
      (code.connected g [] = true →
        (∀ condition next, Code.emptyDo d.id condition next ∉ code.parts) ∧
        (∀ id condition body next, Code.doLoop id d.id condition body next ∈ code.parts →
          id = entry ∧ condition = Code.condition (Text.trim d.label.toList) ∧ entry ∈ body.blocks) ∧
        (entry ∈ code.blocks → (entry, d.id) ∈ code.loops)) := by
  have hown : g.Owned entry d.id :=
    (Program.sound_of_validate hp hg).owned hd hkind hentry hne hgate hlast hunowned
  obtain ⟨code, q, hcode, hfollowed⟩ := g.exists_followed functions (g.typing functions parameters)
  refine ⟨code, hcode, body_of_code hcode style, fun hconnected => ?_⟩
  have htraces := hfollowed.traces
  have hguard : Recovery.Guarded g entry d.id [] [] {} :=
    ⟨fun h => absurd h List.not_mem_nil, fun _ => List.not_mem_nil, fun _ _ h => absurd h List.not_mem_nil⟩
  have hkeeps := htraces.keeps hown [] hguard (fun _ id hid => by
    by_cases h : id = entry
    · exact .inl h
    · exact .inr (.start (htraces.start_eq hid) h)) hconnected
  have hcondition : (g.recovery functions (g.typing functions parameters)).testCondition d.id =
      Code.condition (Text.trim d.label.toList) := by
    show Code.condition (((g.block? d.id).map fun b => Text.trim b.label.toList).getD []) = _
    rw [hd]
    rfl
  refine ⟨fun condition next hmem => hkeeps.closes _ hmem rfl, fun id condition body next hmem => ?_, fun hmem => ?_⟩
  · rw [← hcondition]
    exact hkeeps.closes _ hmem rfl
  · have hvisited : entry ∈ q.visited := htraces.unfolds.adds.1.noted entry hmem
    have hopened : entry ∈ q.opened := by
      by_contra hnot
      exact hkeeps.guarded.ahead hnot hvisited
    exact (hkeeps.opens hopened).resolve_left List.not_mem_nil

/-- Two loops that test at their ends, one in the other; the body of the inner one begins with the head of a loop. -/
def nestedLoops : Program where
  main :=
    { blocks := [⟨0, .start, ""⟩, ⟨1, .merge, ""⟩, ⟨2, .loop, "a < b"⟩, ⟨3, .assignment, "a = a + 1"⟩,
        ⟨4, .doWhile, "a < 9"⟩, ⟨5, .doWhile, "b < 9"⟩, ⟨6, .finish, ""⟩]
      edges := [⟨0, 1, none, none⟩, ⟨1, 2, none, none⟩, ⟨2, 3, none, some .whenTrue⟩, ⟨2, 4, none, some .whenFalse⟩,
        ⟨3, 2, none, none⟩, ⟨4, 2, none, some .whenTrue⟩, ⟨4, 5, none, some .whenFalse⟩,
        ⟨5, 1, none, some .whenTrue⟩, ⟨5, 6, none, some .whenFalse⟩] }

/-- The inner one of the two loops keeps its body. -/
theorem nestedLoops_keep_bodies :
    nestedLoops.validate = .ok () ∧ nestedLoops.main.branchTarget? 4 .whenTrue = some 2 ∧
      ¬nestedLoops.main.Around 2 4 ∧
      ∃ code, nestedLoops.main.code {} (nestedLoops.main.typing {} []) = some code ∧
        (∀ condition next, Code.emptyDo 4 condition next ∉ code.parts) ∧
        (∀ id condition body next, Code.doLoop id 4 condition body next ∈ code.parts →
          id = 2 ∧ condition = Code.condition (Text.trim "a < 9".toList) ∧ 2 ∈ body.blocks) ∧
        (2, 4) ∈ code.loops := by
  have hvalid : nestedLoops.validate = .ok () := rfl
  have hgate : ¬nestedLoops.main.Around 2 4 := fun h => by
    have hmem : 4 ∈ [0, 1] := h.mem (by decide) (by decide)
    exact absurd hmem (by decide)
  have hlast : ∀ test, nestedLoops.main.testAt? 2 = some test → test = 4 := by decide
  have hunowned : ∀ id, nestedLoops.main.testAt? id ≠ some 2 := by
    intro id h
    obtain ⟨pair, hfind, hpair⟩ := Option.map_eq_some_iff.mp h
    have hnone : ∀ pair ∈ nestedLoops.main.doLoops, pair.2 ≠ 2 := by decide
    exact hnone pair (List.mem_reverse.mp (List.mem_of_find?_eq_some hfind)) hpair
  obtain ⟨code, hcode, -, hkept⟩ := Graph.doLoops_keep_bodies hvalid List.mem_cons_self
    (d := ⟨4, .doWhile, "a < 9"⟩) rfl rfl rfl (by decide) hgate hlast hunowned {} {} []
  have hall : (nestedLoops.main.code {} (nestedLoops.main.typing {} [])).all
      (fun c => c.connected nestedLoops.main [] && c.blocks.contains 2) = true := by decide +kernel
  rw [hcode, Option.all_some, Bool.and_eq_true] at hall
  obtain ⟨hnone, hbody, hloop⟩ := hkept hall.1
  exact ⟨hvalid, rfl, hgate, code, hcode, hnone, hbody, hloop (by simpa using hall.2)⟩

/-- Two tests of which the bodies begin at one block. -/
def sharedEntry : Program where
  main :=
    { blocks := [⟨0, .start, ""⟩, ⟨1, .merge, ""⟩, ⟨2, .assignment, "a = a + 1"⟩, ⟨3, .doWhile, "a < 3"⟩,
        ⟨4, .doWhile, "a < 5"⟩, ⟨5, .finish, ""⟩]
      edges := [⟨0, 1, none, none⟩, ⟨1, 2, none, none⟩, ⟨2, 3, none, none⟩, ⟨3, 1, none, some .whenTrue⟩,
        ⟨3, 4, none, some .whenFalse⟩, ⟨4, 1, none, some .whenTrue⟩, ⟨4, 5, none, some .whenFalse⟩] }

/-- **A loop without its body**: the loop of the later test is opened, and the condition of the other one stands in a
loop of its own. -/
theorem sharedEntry_emptyDo :
    sharedEntry.validate = .ok () ∧ sharedEntry.main.branchTarget? 3 .whenTrue = some 1 ∧
      ¬sharedEntry.main.Around 1 3 ∧
      ∃ code, sharedEntry.main.code {} (sharedEntry.main.typing {} []) = some code ∧
        Code.emptyDo 3 "a < 3".toList .done ∈ code.parts := by
  have hgate : ¬sharedEntry.main.Around 1 3 := fun h => by
    have hmem : 3 ∈ [0] := h.mem (by decide) (by decide)
    exact absurd hmem (by decide)
  have hsome : (sharedEntry.main.code {} (sharedEntry.main.typing {} [])).any
      (fun c => c.parts.contains (.emptyDo 3 "a < 3".toList .done)) = true := by decide +kernel
  obtain ⟨code, hcode, hmem⟩ := Option.any_eq_true _ _ |>.mp hsome
  exact ⟨rfl, rfl, hgate, code, hcode, by simpa using hmem⟩

end Flowchart
