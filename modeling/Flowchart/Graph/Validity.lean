import Flowchart.Graph.Basic

/-!
# Well-formed flowcharts

An editor may hand over charts with loose ends.  The checks of this file say what is wrong with a chart; the
rest of the library works on any chart and needs none of them.

* `Defect` — what can be wrong, with the message for each (`Defect.message`).
* `Graph.checkEndpoints`, `Graph.checkStartAndFinish`, `Graph.checkBranches`, `Graph.checkDeadEnds`,
  `Graph.checkSingleSuccessor`, `Graph.checkMerges` — one check each; the first offender in list order is
  reported.
* `Graph.validate` — all of them in that order.
-/

namespace Flowchart

/-- What can be wrong with a chart or with a function. -/
inductive Defect where
  | danglingEdge (source target missing : BlockId)
  | noStart
  | noFinish
  | secondStart (id : BlockId)
  | secondFinish (id : BlockId)
  | noBranch (id : BlockId) (branch : Branch)
  | deadEnd (id : BlockId)
  | fanOut (id : BlockId)
  | labelledMerge (id : BlockId)
  | unreachedMerge (id : BlockId)
  | inFunction (name : String) (defect : Defect)
  deriving Repr, DecidableEq

/-- How a block is named in a message. -/
def blockMark (id : BlockId) : String := "#" ++ toString id

/-- The message for a defect. -/
def Defect.message : Defect → String
  | danglingEdge source target missing =>
    "Edge " ++ toString source ++ " -> " ++ toString target ++ " references block " ++ blockMark missing
      ++ ", which does not exist"
  | noStart => "Graph has no Start block"
  | noFinish => "Graph has no End block"
  | secondStart id => "Graph has more than one Start block (second one is " ++ blockMark id ++ ")"
  | secondFinish id => "Graph has more than one End block (second one is " ++ blockMark id ++ ")"
  | noBranch id branch => "Block " ++ blockMark id ++ " has no " ++ branch.name ++ "-tagged outgoing edge"
  | deadEnd id => "Block " ++ blockMark id ++ " has no outgoing edge and is not an End block"
  | fanOut id => "Block " ++ blockMark id ++ " must have exactly one outgoing edge"
  | labelledMerge id => "Merge block " ++ blockMark id ++ " must not carry a label"
  | unreachedMerge id => "Merge block " ++ blockMark id ++ " has no incoming edge"
  | inFunction name defect => "Function '" ++ name ++ "' is invalid: " ++ defect.message

/-- The first defect that a check finds along a list. -/
def firstDefect {α : Type} (find? : α → Option Defect) (l : List α) : Except Defect Unit :=
  match l.findSome? find? with
  | some d => .error d
  | none => .ok ()

/-- A check along a list passes exactly when it passes everywhere. -/
theorem firstDefect_eq_ok_iff {α : Type} {find? : α → Option Defect} {l : List α} :
    firstDefect find? l = .ok () ↔ ∀ a ∈ l, find? a = none := by
  unfold firstDefect
  split
  · next d h =>
    simp only [reduceCtorEq, false_iff]
    intro hall
    rw [List.findSome?_eq_none_iff.mpr hall] at h
    cases h
  · next h => simpa using List.findSome?_eq_none_iff.mp h

namespace Graph

/-- Every edge joins two blocks of the chart. -/
def checkEndpoints (g : Graph) : Except Defect Unit :=
  firstDefect (fun e =>
    if (g.block? e.source).isNone then some (.danglingEdge e.source e.target e.source)
    else if (g.block? e.target).isNone then some (.danglingEdge e.source e.target e.target)
    else none) g.edges

/-- There is one start block and one end block. -/
def checkStartAndFinish (g : Graph) : Except Defect Unit :=
  match g.blocks.filter (·.kind == .start) with
  | [] => .error .noStart
  | _ :: second :: _ => .error (.secondStart second.id)
  | [_] =>
    match g.blocks.filter (·.kind == .finish) with
    | [] => .error .noFinish
    | _ :: second :: _ => .error (.secondFinish second.id)
    | [_] => .ok ()

/-- Every branching block has an edge tagged for each branch. -/
def checkBranches (g : Graph) : Except Defect Unit :=
  firstDefect (fun b =>
    if (g.taggedEdge? b.id .whenTrue).isNone then some (.noBranch b.id .whenTrue)
    else if (g.taggedEdge? b.id .whenFalse).isNone then some (.noBranch b.id .whenFalse)
    else none) (g.blocks.filter (·.kind.isBranching))

/-- Every block but an end block goes on somewhere. -/
def checkDeadEnds (g : Graph) : Except Defect Unit :=
  firstDefect (fun b => if (g.outgoing b.id).isEmpty then some (.deadEnd b.id) else none)
    (g.blocks.filter (·.kind != .finish))

/-- Every block that neither branches nor ends the chart goes on along exactly one edge. -/
def checkSingleSuccessor (g : Graph) : Except Defect Unit :=
  firstDefect (fun b => if (g.outgoing b.id).length != 1 then some (.fanOut b.id) else none)
    (g.blocks.filter fun b => b.kind != .finish && !b.kind.isBranching)

/-- Every merge block is blank and is reached by some edge. -/
def checkMerges (g : Graph) : Except Defect Unit :=
  firstDefect (fun b =>
    if !(Text.trim b.label.toList).isEmpty then some (.labelledMerge b.id)
    else if (g.incoming b.id).isEmpty then some (.unreachedMerge b.id)
    else none) (g.blocks.filter (·.kind == .merge))

/-- All checks, the first failing one reported. -/
def validate (g : Graph) : Except Defect Unit := do
  g.checkEndpoints
  g.checkStartAndFinish
  g.checkBranches
  g.checkDeadEnds
  g.checkSingleSuccessor
  g.checkMerges

end Graph

end Flowchart
