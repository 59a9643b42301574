import Flowchart.Code.Basic
import Flowchart.Code.Condition
import Flowchart.Code.Typing

/-!
# From charts to structured code

Edges may lead anywhere; code has only choices and loops.  The code for a chart is found by following the edges
from the start block.  A block with a condition opens a choice or a loop, whose parts are followed in turn; a
region ends at the head of an enclosing loop, at a block that was covered before, and at the end of the path.

* `Graph.bodyEntry?` — where the body of a loop with its test at the end begins: where the true edge of the
  test leads, else as far back from the test as single steps lead.
* `Graph.doLoops` — these entries with their tests; the last test with an entry has it.
* `Recovery` — what has to be known about a chart; `Progress` — the blocks covered and the entries passed.
* `Recovery.follow` — the code from a block on.  Every call opens an entry, covers a block or ends the region,
  so twice the number of blocks, and a little, bounds their nesting (`Recovery.fuel`).
* `Graph.code` — the code for a chart.

Only the first part of a choice that leads to a merge block goes on with what follows it; the others end
there, and so does the choice itself.
-/

namespace Flowchart

namespace Graph

/-- Steps back from a block towards the beginning of a body: until a merge block, a block seen before, or a
block before which there is none but the test. -/
def backToEntry (g : Graph) (test : BlockId) : Nat → List BlockId → BlockId → Option BlockId
  | 0, _, _ => none
  | fuel + 1, seen, id =>
    match g.block? id with
    | none => none
    | some b =>
      if b.kind = .merge ∨ id ∈ seen then some id
      else
        match ((g.incoming id).map Edge.source).head? with
        | some previous => if previous = test then some id else backToEntry g test fuel (id :: seen) previous
        | none => some id

/-- The first block of the body of a loop whose test stands at its end. -/
def bodyEntry? (g : Graph) (test : BlockId) : Option BlockId :=
  match (g.branchTarget? test .whenTrue).filter (· != test) with
  | some entry => some entry
  | none =>
    match ((g.incoming test).map Edge.source).find? (· != test) with
    | some last => g.backToEntry test (g.blocks.length + 1) [test] last
    | none => none

/-- The loops with their tests at their ends: the entry of the body and the test. -/
def doLoops (g : Graph) : List (BlockId × BlockId) :=
  (g.blocks.filter (·.kind == .doWhile)).filterMap fun b => (g.bodyEntry? b.id).map (·, b.id)

end Graph

/-- What has to be known about a chart. -/
structure Recovery where
  graph : Graph
  functions : FunctionTable
  typing : Typing
  /-- The entries of the bodies of loops that test at their ends, with the tests. -/
  doLoops : List (BlockId × BlockId)

/-- The blocks covered so far, and the entries at which loops were opened. -/
structure Progress where
  visited : List BlockId := []
  opened : List BlockId := []

namespace Recovery

/-! ### Single blocks -/

/-- The statement for an assignment: texts are copied. -/
def assignment (r : Recovery) (target : String) (code : Text) : Statement :=
  if r.typing.get? target = some .string then .copyText target.toList code else .assign target.toList code

/-- The statement for a value that is assigned, if a variable is named, and dropped otherwise. -/
def valueStatement (r : Recovery) (target : Option String) (code : Text) : Statement :=
  match target with
  | some target => r.assignment target code
  | none => .expression code

/-- The statement that reads a variable. -/
def scanStatement (r : Recovery) (name : String) : Statement :=
  .scan ((r.typing.get? name).getD .int) name.toList

/-- The statement that prints an expression. -/
def printStatement (r : Recovery) (expression : Text) : Statement :=
  match Literal.quoted? expression with
  | some content => .printText content
  | none => .printValue (r.typing.ofExpression r.functions expression) expression

/-- The code of a call. -/
def callCode (function : String) (arguments : List Text) : Text :=
  function.toList ++ "(".toList ++ ", ".toList.intercalate arguments ++ ")".toList

/-- The statements for an instruction without branches. -/
def statements (r : Recovery) : Instruction → List Statement
  | .assign target expression => [r.valueStatement target expression]
  | .input names => names.map r.scanStatement
  | .output expression => [r.printStatement expression]
  | .call target function arguments => [r.valueStatement target (callCode function arguments)]
  | _ => []

/-- What stands in front of the body of a loop. -/
def whileHeader (condition : Text) : Text := "while (".toList ++ Code.condition condition ++ ")".toList

/-- What stands in front of the body of a counting loop. -/
def forHeader (init condition increment : Text) : Text :=
  "for (".toList ++ init ++ "; ".toList ++ Code.condition condition ++ "; ".toList ++ increment ++ ")".toList

/-- The condition on a block that tests at the end of a loop. -/
def testCondition (r : Recovery) (test : BlockId) : Text :=
  Code.condition (((r.graph.block? test).map fun b => Text.trim b.label.toList).getD [])

/-! ### Regions -/

/-- The test of the loop that has to be opened at a block: one that has this entry and was not opened yet. -/
def testToOpen? (r : Recovery) (id : BlockId) (p : Progress) : Option BlockId :=
  if p.opened.contains id then none else (r.doLoops.reverse.find? (·.1 == id)).map Prod.snd

/-- Where code goes on after a choice: behind the closest merge block. -/
def afterChoice? (r : Recovery) (walls : List BlockId) (id : BlockId) : Option BlockId :=
  (r.graph.nearestMerge? walls id).bind r.graph.successor?

/-- The code from a block on.  `walls` are the heads and the tests of the loops around it, at which the region
ends. -/
def follow (r : Recovery) : Nat → List BlockId → Option BlockId → Progress → Option (Code × Progress)
  | 0, _, _, _ => none
  | _ + 1, _, none, p => some (.done, p)
  | fuel + 1, walls, some id, p =>
    if walls.contains id then some (.done, p)
    else
      match r.testToOpen? id p with
      | some test => do
        let (body, p) ← follow r fuel (test :: walls) (some id) { p with opened := id :: p.opened }
        let p := { p with visited := test :: p.visited }
        let (next, p) ← follow r fuel walls (r.graph.branchTarget? test .whenFalse) p
        pure (.doLoop id test (r.testCondition test) body next, p)
      | none =>
        if p.visited.contains id then some (.done, p)
        else
          let p := { p with visited := id :: p.visited }
          match r.graph.block? id with
          | none => some (.done, p)
          | some b =>
            match b.instruction with
            | .error _ => do
              let (next, p) ← follow r fuel walls (r.graph.successor? id) p
              pure (.plain id [.remark (Text.trim b.label.toList)] next, p)
            | .ok .finish => some (.plain id [] .done, p)
            | .ok (.choose condition) => do
              let (body, p) ← follow r fuel walls (r.graph.branchTarget? id .whenTrue) p
              match r.graph.branchTarget? id .whenFalse with
              | some target => do
                let (other, p) ← follow r fuel walls (some target) p
                let (next, p) ← follow r fuel walls (r.afterChoice? walls id) p
                pure (.ifElse id (Code.condition condition) body other next, p)
              | none => do
                let (next, p) ← follow r fuel walls (r.afterChoice? walls id) p
                pure (.ifThen id (Code.condition condition) body next, p)
            | .ok (.whileLoop condition) => do
              let (body, p) ← follow r fuel (id :: walls) (r.graph.branchTarget? id .whenTrue) p
              let (next, p) ← follow r fuel walls (r.graph.branchTarget? id .whenFalse) p
              pure (.loop id (whileHeader condition) body next, p)
            | .ok (.forLoop init condition increment) => do
              let (body, p) ← follow r fuel (id :: walls) (r.graph.branchTarget? id .whenTrue) p
              let (next, p) ← follow r fuel walls (r.graph.branchTarget? id .whenFalse) p
              pure (.loop id (forHeader init condition increment) body next, p)
            | .ok (.doWhile condition) => do
              let (next, p) ← follow r fuel walls (r.graph.branchTarget? id .whenFalse) p
              pure (.emptyDo id (Code.condition condition) next, p)
            | .ok i => do
              let (next, p) ← follow r fuel walls (r.graph.successor? id) p
              pure (.plain id (r.statements i) next, p)

/-- The fuel that every chart can do with. -/
def fuel (r : Recovery) : Nat := 2 * r.graph.blocks.length + 2

end Recovery

/-- What has to be known to find the code for a chart. -/
def Graph.recovery (g : Graph) (functions : FunctionTable) (typing : Typing) : Recovery :=
  { graph := g, functions, typing, doLoops := g.doLoops }

/-- The code for a chart, from its start block on. -/
def Graph.code (g : Graph) (functions : FunctionTable) (typing : Typing) : Option Code :=
  let r := g.recovery functions typing
  (r.follow r.fuel [] g.start? {}).map Prod.fst

end Flowchart
