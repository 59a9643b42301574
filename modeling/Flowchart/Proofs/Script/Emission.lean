import Flowchart.Code.Recovery
import Flowchart.Proofs.Script.Basic
import Flowchart.Proofs.Script.Labels

/-!
# The code for a script

Code for a script can be written down without a chart: statements on lines of their own, choices and loops with
their parts between braces.  Only what follows a choice has an unusual place, inside the first branch.

* `Script.emission` — the lines of a script.
* `Script.code` — the tree of code for a script in front of some other code, which goes where the script ends
  first.  **`Script.lines_code`** says that its lines are those of the script, and **`Script.blocks_code`** that
  every block stands in it once, but for the tests at the ends of loops, which stand with their loops.
-/

namespace Flowchart

/-- The instruction on a block whose label can be read. -/
def Block.read (b : Block) : Instruction :=
  match b.instruction with
  | .ok i => i
  | .error _ => .merge

theorem Block.instruction_eq {b : Block} (h : ∃ i, b.instruction = .ok i) : b.instruction = .ok b.read := by
  obtain ⟨i, hi⟩ := h
  unfold Block.read
  rw [hi]

/-- What stands in front of the body of a loop that tests before it. -/
def Instruction.header : Instruction → Text
  | .forLoop init condition increment => Recovery.forHeader init condition increment
  | i => Recovery.whileHeader i.condition

namespace Script

/-! ### Lines -/

/-- The number of nodes of a script. -/
def size : Script → Nat
  | done => 0
  | simple _ _ next => next.size + 1
  | choice _ _ yes no next => yes.size + no.size + next.size + 1
  | loop _ _ body next => body.size + next.size + 1
  | doLoop _ _ body next => body.size + next.size + 1

@[simp] theorem size_append (s t : Script) : (s.append t).size = s.size + t.size := by
  induction s with
  | done => simp [append, size]
  | simple kind node next ih =>
    rw [append, size, size, ih]
    omega
  | choice test join yes no next _ _ ih =>
    rw [append, size, size, ih]
    omega
  | loop kind head body next _ ih =>
    rw [append, size, size, ih]
    omega
  | doLoop entry test body next _ ih =>
    rw [append, size, size, ih]
    omega

@[simp] theorem append_done (s : Script) : s.append done = s := by
  induction s with
  | done => rfl
  | simple kind node next ih => rw [append, ih]
  | choice test join yes no next _ _ ih => rw [append, ih]
  | loop kind head body next _ ih => rw [append, ih]
  | doLoop entry test body next _ ih => rw [append, ih]

/-- The lines of a script, the first statement at the given depth.  What follows a choice is written inside of
its first branch. -/
def emission (write : Instruction → List Statement) : (depth : Nat) → Script → List Line
  | _, done => []
  | depth, simple kind node next =>
    (write (node.block kind.kind).read).map (fun s => ⟨depth, s.text⟩) ++ emission write depth next
  | depth, choice test _ yes no next =>
    Code.ifLine depth (Code.condition (test.block .conditional).read.condition) ::
      emission write (depth + 1) (yes.append next)
      ++ ⟨depth, "\x7d else \x7b".toList⟩ :: emission write (depth + 1) no
      ++ [Code.closeLine depth]
  | depth, loop kind head body next =>
    ⟨depth, (head.block kind.kind).read.header ++ " \x7b".toList⟩ :: emission write (depth + 1) body
      ++ Code.closeLine depth :: emission write depth next
  | depth, doLoop _ test body next =>
    Code.doLine depth :: emission write (depth + 1) body
      ++ Code.whileLine depth (Code.condition (test.block .doWhile).read.condition) :: emission write depth next
termination_by _ s => s.size
decreasing_by all_goals simp only [size, size_append]; omega

/-! ### Trees of code -/

/-- The code for a script in front of other code. -/
def code (write : Instruction → List Statement) : Script → Code → Code
  | done, k => k
  | simple kind node next, k => .plain node.id (write (node.block kind.kind).read) (next.code write k)
  | choice test join yes no next, k =>
    .ifElse test.id (Code.condition (test.block .conditional).read.condition)
      (yes.code write (.plain join.id [] (next.code write k))) (no.code write .done) .done
  | loop kind head body next, k =>
    .loop head.id (head.block kind.kind).read.header (body.code write .done) (next.code write k)
  | doLoop entry test body next, k =>
    .doLoop entry.id test.id (Code.condition (test.block .doWhile).read.condition)
      (.plain entry.id [] (body.code write .done)) (next.code write k)

/-- **The lines of the code are the lines of the script**, followed by those of the code behind it. -/
theorem lines_code (write : Instruction → List Statement) {s t : Script} {k : Code}
    (hk : ∀ depth, k.lines depth = t.emission write depth) (depth : Nat) :
    (s.code write k).lines depth = (s.append t).emission write depth := by
  induction s generalizing t k depth with
  | done => exact hk depth
  | simple kind node next ih =>
    rw [code, append, emission, Code.lines, ih hk]
  | choice test join yes no next ihy ihn ih =>
    have hyes := ihy (t := next.append t) (k := .plain join.id [] (next.code write k)) fun d => ih hk d
    have hno := ihn (t := done) (k := .done) fun d => by rw [emission, Code.lines]
    rw [code, append, emission, Code.lines, hyes, hno, append_done, Code.lines]
  | loop kind head body next ihb ih =>
    have hbody := ihb (t := done) (k := .done) fun d => by rw [emission, Code.lines]
    rw [code, append, emission, Code.lines, hbody, append_done, ih hk]
  | doLoop entry test body next ihb ih =>
    have hbody := ihb (t := done) (k := .done) fun d => by rw [emission, Code.lines]
    rw [code, append, emission, Code.lines, Code.lines, hbody, append_done, ih hk]
    rfl

/-- The numbers of the blocks for which code is written where they stand: all but the tests at the ends of
loops. -/
def covered (s : Script) : List BlockId := (s.blocks.filter (·.kind != .doWhile)).map Block.id

/-- **Every block stands in the code once.** -/
theorem blocks_code (write : Instruction → List Statement) (s : Script) (k : Code) :
    (s.code write k).blocks.Perm (s.covered ++ k.blocks) := by
  have hsimple : ∀ kind : Simple, (kind.kind != .doWhile) = true := fun kind => by cases kind <;> rfl
  have hloop : ∀ kind : Looping, (kind.kind != .doWhile) = true := fun kind => by cases kind <;> rfl
  rw [List.perm_iff_count]
  intro id
  induction s generalizing k with
  | done => simp [code, covered, blocks]
  | simple kind node next ih =>
    have hnext := ih k
    simp only [code, Code.blocks, covered, blocks, hsimple, List.filter_cons, Node.block_kind, if_true,
      List.map_cons, Node.block_id, List.cons_append, List.count_cons, List.count_append] at hnext ⊢
    omega
  | choice test join yes no next ihy ihn ih =>
    have hyes := ihy (.plain join.id [] (next.code write k))
    have hno := ihn .done
    have hnext := ih k
    simp only [code, Code.blocks, covered, blocks, List.filter_cons, List.filter_append, List.map_append,
      Node.block_kind, List.map_cons, Node.block_id, List.cons_append, List.count_cons, List.count_append,
      List.append_nil, show (BlockKind.conditional != .doWhile) = true from rfl,
      show (BlockKind.merge != .doWhile) = true from rfl, if_true] at hyes hno hnext ⊢
    omega
  | loop kind head body next ihb ih =>
    have hbody := ihb .done
    have hnext := ih k
    simp only [code, Code.blocks, covered, blocks, hloop, List.filter_cons, List.filter_append, List.map_append,
      Node.block_kind, if_true, List.map_cons, Node.block_id, List.cons_append, List.count_cons,
      List.count_append, List.append_nil] at hbody hnext ⊢
    omega
  | doLoop entry test body next ihb ih =>
    have hbody := ihb .done
    have hnext := ih k
    simp only [code, Code.blocks, covered, blocks, List.filter_cons, List.filter_append, List.map_append,
      Node.block_kind, List.map_cons, Node.block_id, List.cons_append, List.count_cons, List.count_append,
      List.append_nil, show (BlockKind.merge != .doWhile) = true from rfl,
      show (BlockKind.doWhile != .doWhile) = false from rfl, if_true, Bool.false_eq_true, if_false]
      at hbody hnext ⊢
    omega

end Script

end Flowchart
