import Flowchart.Proofs.Code.Coverage

/-!
# How code comes out of a chart

Code comes out of following edges, and its texts come out of labels.  Here the rounds in which the edges are followed
are left out: what remains is one rule for each way in which a piece of code comes out, with all that is known there.
What holds of the code of every chart is shown along these rules.

* `Recovery.Covers` — a block is come to and covered.
* `Recovery.Followed` — the rules.
* **`Recovery.followed_of_follow`** — all code comes out by them.
* **`Graph.exists_followed`** — so does the code for a chart.
-/

namespace Flowchart

namespace Recovery

/-- A block is come to and covered: it is no wall, no loop is opened at it, and it was not covered before. -/
structure Covers (r : Recovery) (walls : List BlockId) (id : BlockId) (p : Progress) (b : Block) : Prop where
  outside : id ∉ walls
  unopened : r.testToOpen? id p = none
  fresh : id ∉ p.visited
  found : r.graph.block? id = some b

/-- How code comes out of following the edges: the walls, the block from which on the code is wanted, the progress
before, the code, and the progress after. -/
inductive Followed (r : Recovery) : List BlockId → Option BlockId → Progress → Code → Progress → Prop where
  /-- The path ends, or it leads to a wall or to a block that was covered. -/
  | rests {walls : List BlockId} {start : Option BlockId} {p : Progress}
      (hrests : ∀ id ∈ start, id ∈ walls ∨ id ∈ p.visited) : Followed r walls start p .done p
  /-- The path leads to a block that does not exist. -/
  | misses {walls : List BlockId} {id : BlockId} {p : Progress} (hnone : r.graph.block? id = none) :
      Followed r walls (some id) p .done (p.cover id)
  /-- A loop is opened where its body begins; code goes on behind the test. -/
  | opens {walls : List BlockId} {id test : BlockId} {p p₁ q : Progress} {body next : Code} (hwall : id ∉ walls)
      (htest : r.testToOpen? id p = some test) (hbody : Followed r (test :: walls) (some id) (p.openLoop id) body p₁)
      (hnext : Followed r walls (r.graph.branchTarget? test .whenFalse) (p₁.cover test) next q) :
      Followed r walls (some id) p (.doLoop id test (r.testCondition test) body next) q
  /-- What cannot be read is repeated as it stands. -/
  | remark {walls : List BlockId} {id : BlockId} {p q : Progress} {b : Block} {fault : Fault} {next : Code}
      (h : r.Covers walls id p b) (hi : b.instruction = .error fault)
      (hnext : Followed r walls (r.graph.successor? id) (p.cover id) next q) :
      Followed r walls (some id) p (.plain id [.remark (Text.trim b.label.toList)] next) q
  | finish {walls : List BlockId} {id : BlockId} {p : Progress} {b : Block} (h : r.Covers walls id p b)
      (hi : b.instruction = .ok .finish) : Followed r walls (some id) p (.plain id [] .done) (p.cover id)
  | plain {walls : List BlockId} {id : BlockId} {p q : Progress} {b : Block} {i : Instruction} {next : Code}
      (h : r.Covers walls id p b) (hi : b.instruction = .ok i)
      (hnext : Followed r walls (r.graph.successor? id) (p.cover id) next q) :
      Followed r walls (some id) p (.plain id (r.statements i) next) q
  | ifThen {walls : List BlockId} {id : BlockId} {p p₁ q : Progress} {b : Block} {condition : Text} {body next : Code}
      (h : r.Covers walls id p b) (hi : b.instruction = .ok (.choose condition))
      (hno : r.graph.branchTarget? id .whenFalse = none)
      (hbody : Followed r walls (r.graph.branchTarget? id .whenTrue) (p.cover id) body p₁)
      (hnext : Followed r walls (r.afterChoice? walls id) p₁ next q) :
      Followed r walls (some id) p (.ifThen id (Code.condition condition) body next) q
  | ifElse {walls : List BlockId} {id no : BlockId} {p p₁ p₂ q : Progress} {b : Block} {condition : Text}
      {body other next : Code} (h : r.Covers walls id p b) (hi : b.instruction = .ok (.choose condition))
      (hno : r.graph.branchTarget? id .whenFalse = some no)
      (hbody : Followed r walls (r.graph.branchTarget? id .whenTrue) (p.cover id) body p₁)
      (hother : Followed r walls (some no) p₁ other p₂) (hnext : Followed r walls (r.afterChoice? walls id) p₂ next q) :
      Followed r walls (some id) p (.ifElse id (Code.condition condition) body other next) q
  | whileLoop {walls : List BlockId} {id : BlockId} {p p₁ q : Progress} {b : Block} {condition : Text}
      {body next : Code} (h : r.Covers walls id p b) (hi : b.instruction = .ok (.whileLoop condition))
      (hbody : Followed r (id :: walls) (r.graph.branchTarget? id .whenTrue) (p.cover id) body p₁)
      (hnext : Followed r walls (r.graph.branchTarget? id .whenFalse) p₁ next q) :
      Followed r walls (some id) p (.loop id (whileHeader condition) body next) q
  | forLoop {walls : List BlockId} {id : BlockId} {p p₁ q : Progress} {b : Block} {init condition increment : Text}
      {body next : Code} (h : r.Covers walls id p b) (hi : b.instruction = .ok (.forLoop init condition increment))
      (hbody : Followed r (id :: walls) (r.graph.branchTarget? id .whenTrue) (p.cover id) body p₁)
      (hnext : Followed r walls (r.graph.branchTarget? id .whenFalse) p₁ next q) :
      Followed r walls (some id) p (.loop id (forHeader init condition increment) body next) q
  | emptyDo {walls : List BlockId} {id : BlockId} {p q : Progress} {b : Block} {condition : Text} {next : Code}
      (h : r.Covers walls id p b) (hi : b.instruction = .ok (.doWhile condition))
      (hnext : Followed r walls (r.graph.branchTarget? id .whenFalse) (p.cover id) next q) :
      Followed r walls (some id) p (.emptyDo id (Code.condition condition) next) q

variable {r : Recovery} {walls : List BlockId} {id : BlockId} {p q : Progress}

/-- What comes out in some rounds comes out by the rules. -/
def Ruled (r : Recovery) (n : Nat) : Prop :=
  ∀ {walls start p c q}, r.follow n walls start p = some (c, q) → r.Followed walls start p c q

/-- A loop that is opened. -/
theorem followed_opening {n : Nat} (go : r.Ruled n) {test : BlockId} {c : Code} (hwall : ¬walls.contains id = true)
    (htest : r.testToOpen? id p = some test) (h : r.follow (n + 1) walls (some id) p = some (c, q)) :
    r.Followed walls (some id) p c q := by
  have hwall' : id ∉ walls := by simpa using hwall
  rw [follow, if_neg hwall, htest] at h
  obtain ⟨⟨body, p₁⟩, hbody, h⟩ := Option.bind_eq_some_iff.mp h
  obtain ⟨⟨next, q'⟩, hnext, h⟩ := Option.bind_eq_some_iff.mp h
  cases h
  exact .opens hwall' htest (go hbody) (go hnext)

/-- A block that is covered, one case for each instruction. -/
theorem followed_covering {n : Nat} (go : r.Ruled n) {b : Block} {c : Code} (hwall : ¬walls.contains id = true)
    (htest : r.testToOpen? id p = none) (hvisited : ¬p.visited.contains id = true) (hb : r.graph.block? id = some b)
    (h : r.follow (n + 1) walls (some id) p = some (c, q)) : r.Followed walls (some id) p c q := by
  have hcovers : r.Covers walls id p b := ⟨by simpa using hwall, htest, by simpa using hvisited, hb⟩
  rw [follow, if_neg hwall, htest] at h
  dsimp only at h
  rw [if_neg hvisited, hb] at h
  dsimp only at h
  cases hi : b.instruction with
  | error fault =>
    rw [hi] at h
    obtain ⟨⟨next, q'⟩, hnext, h⟩ := Option.bind_eq_some_iff.mp h
    cases h
    exact .remark hcovers hi (go hnext)
  | ok i =>
    rw [hi] at h
    cases i with
    | finish =>
      cases h
      exact .finish hcovers hi
    | choose condition =>
      obtain ⟨⟨body, p₁⟩, hbody, h⟩ := Option.bind_eq_some_iff.mp h
      dsimp only at h
      cases hno : r.graph.branchTarget? id .whenFalse with
      | none =>
        rw [hno] at h
        obtain ⟨⟨next, q'⟩, hnext, h⟩ := Option.bind_eq_some_iff.mp h
        cases h
        exact .ifThen hcovers hi hno (go hbody) (go hnext)
      | some no =>
        rw [hno] at h
        obtain ⟨⟨other, p₂⟩, hother, h⟩ := Option.bind_eq_some_iff.mp h
        obtain ⟨⟨next, q'⟩, hnext, h⟩ := Option.bind_eq_some_iff.mp h
        cases h
        exact .ifElse hcovers hi hno (go hbody) (go hother) (go hnext)
    | whileLoop condition =>
      obtain ⟨⟨body, p₁⟩, hbody, h⟩ := Option.bind_eq_some_iff.mp h
      obtain ⟨⟨next, q'⟩, hnext, h⟩ := Option.bind_eq_some_iff.mp h
      cases h
      exact .whileLoop hcovers hi (go hbody) (go hnext)
    | forLoop init condition increment =>
      obtain ⟨⟨body, p₁⟩, hbody, h⟩ := Option.bind_eq_some_iff.mp h
      obtain ⟨⟨next, q'⟩, hnext, h⟩ := Option.bind_eq_some_iff.mp h
      cases h
      exact .forLoop hcovers hi (go hbody) (go hnext)
    | doWhile condition =>
      obtain ⟨⟨next, q'⟩, hnext, h⟩ := Option.bind_eq_some_iff.mp h
      cases h
      exact .emptyDo hcovers hi (go hnext)
    | start | merge | assign | input | output | call =>
      obtain ⟨⟨next, q'⟩, hnext, h⟩ := Option.bind_eq_some_iff.mp h
      cases h
      exact .plain hcovers hi (go hnext)

/-- **All code comes out by the rules**, for however many rounds the edges are followed. -/
theorem followed_of_follow (n : Nat) : r.Ruled n := by
  induction n with
  | zero =>
    intro walls start p c q h
    cases h
  | succ n ih =>
    intro walls start p c q h
    cases start with
    | none =>
      rw [follow] at h
      cases h
      exact .rests (by rintro _ ⟨⟩)
    | some id =>
      by_cases hwall : walls.contains id = true
      · rw [follow, if_pos hwall] at h
        cases h
        refine .rests ?_
        rintro _ ⟨⟩
        exact .inl (by simpa using hwall)
      cases htest : r.testToOpen? id p with
      | some test => exact followed_opening ih hwall htest h
      | none =>
        by_cases hvisited : p.visited.contains id = true
        · rw [follow, if_neg hwall, htest] at h
          dsimp only at h
          rw [if_pos hvisited] at h
          cases h
          refine .rests ?_
          rintro _ ⟨⟩
          exact .inr (by simpa using hvisited)
        cases hb : r.graph.block? id with
        | none =>
          rw [follow, if_neg hwall, htest] at h
          dsimp only at h
          rw [if_neg hvisited, hb] at h
          cases h
          exact .misses hb
        | some b => exact followed_covering ih hwall htest hvisited hb h

end Recovery

/-- **The code for a chart comes out by the rules**, and there always is one. -/
theorem Graph.exists_followed (g : Graph) (functions : FunctionTable) (typing : Typing) :
    ∃ c q, g.code functions typing = some c ∧ (g.recovery functions typing).Followed [] g.start? {} c q := by
  obtain ⟨c, q, hcode, hfollow, -⟩ := g.exists_code functions typing
  exact ⟨c, q, hcode, Recovery.followed_of_follow _ hfollow⟩

end Flowchart
