import Flowchart.Text.Basic

/-!
# Flowcharts

A flowchart is a list of labelled blocks and a list of edges between them.  A block is known by its number; an
edge may carry a label for people and a tag that says on which outcome of a condition it is taken.

* `BlockKind`, `Branch`, `Block`, `Edge`, `Graph` — the data.
* `Graph.block?` — the block with a number.  The position equal to the number is tried first, so look-up in a
  chart whose blocks are numbered in order takes one step.
* `Graph.outgoing`, `Graph.incoming`, `Graph.successor?` — the edges at a block, in the order of the list.
* `Graph.branchEdge?` — the edge taken on an outcome: the tagged one, else one whose label reads as the outcome.
* `Graph.addBlock`, `Graph.connect`, `Graph.connectBranch` — building a chart piece by piece.
-/

namespace Flowchart

/-- The number by which a block is known inside its chart. -/
abbrev BlockId := Nat

/-- The eleven kinds of block. -/
inductive BlockKind where
  | start
  | finish
  | assignment
  | input
  | output
  | conditional
  | loop
  | forLoop
  | doWhile
  | merge
  | functionCall
  deriving Repr, DecidableEq

/-- The two outcomes of a condition, as tags of edges. -/
inductive Branch where
  | whenTrue
  | whenFalse
  deriving Repr, DecidableEq

/-- A block: its number, its kind and the text on it. -/
structure Block where
  id : BlockId
  kind : BlockKind
  label : String
  deriving Repr, DecidableEq

/-- A connection from one block to another. -/
structure Edge where
  source : BlockId
  target : BlockId
  label : Option String := none
  branch : Option Branch := none
  deriving Repr, DecidableEq

/-- A flowchart. -/
structure Graph where
  blocks : List Block := []
  edges : List Edge := []
  deriving Repr, DecidableEq

namespace BlockKind

/-- Every kind, in the order of their definition. -/
def all : List BlockKind :=
  [start, finish, assignment, input, output, conditional, loop, forLoop, doWhile, merge, functionCall]

/-- The name of a kind, in messages and in documents. -/
def name : BlockKind → String
  | start => "Start"
  | finish => "End"
  | assignment => "Assignment"
  | input => "Input"
  | output => "Output"
  | conditional => "Conditional"
  | loop => "Loop"
  | forLoop => "ForLoop"
  | doWhile => "DoWhile"
  | merge => "Merge"
  | functionCall => "FunctionCall"

/-- Kinds whose blocks are left on one of two branches. -/
def isBranching : BlockKind → Bool
  | conditional | loop | forLoop | doWhile => true
  | _ => false

/-- Kinds whose blocks head or close a loop. -/
def isLoop : BlockKind → Bool
  | loop | forLoop | doWhile => true
  | _ => false

end BlockKind

namespace Branch

/-- The branch taken on an outcome. -/
def ofBool (outcome : Bool) : Branch := if outcome then whenTrue else whenFalse

/-- The name of a branch, in messages, documents and edge labels. -/
def name : Branch → String
  | whenTrue => "True"
  | whenFalse => "False"

/-- The edge labels that read as a branch, the preferred one first. -/
def labels : Branch → List String
  | whenTrue => ["True", "Yes", "Sì", "Si"]
  | whenFalse => ["False", "No"]

end Branch

/-- Two texts are the same but for the case of ASCII letters. -/
def sameIgnoringCase (a b : Text) : Bool := a.map Char.toLower == b.map Char.toLower

namespace Graph

/-- The block with the given number. -/
def block? (g : Graph) (id : BlockId) : Option Block :=
  match g.blocks[id]? with
  | some b => if b.id = id then some b else g.blocks.find? (·.id == id)
  | none => g.blocks.find? (·.id == id)

/-- What is found by a number is a block of the chart, and the number is its own. -/
theorem mem_of_block? {g : Graph} {id : BlockId} {b : Block} (h : g.block? id = some b) :
    b ∈ g.blocks ∧ b.id = id := by
  have hfind : ∀ {c : Block}, g.blocks.find? (·.id == id) = some c → c ∈ g.blocks ∧ c.id = id :=
    fun hc => ⟨List.mem_of_find?_eq_some hc, by simpa using List.find?_some hc⟩
  unfold block? at h
  split at h
  · next c hc =>
    split at h
    · next hid =>
      cases h
      exact ⟨List.mem_of_getElem? hc, hid⟩
    · exact hfind h
  · exact hfind h

/-- A number that a block of the chart has is found. -/
theorem exists_block? {g : Graph} {b : Block} (h : b ∈ g.blocks) : ∃ c, g.block? b.id = some c := by
  have hfind : ∃ c, g.blocks.find? (·.id == b.id) = some c :=
    Option.isSome_iff_exists.mp (List.find?_isSome.mpr ⟨b, h, beq_self_eq_true _⟩)
  unfold block?
  split
  · next c _ =>
    split
    · exact ⟨c, rfl⟩
    · exact hfind
  · exact hfind

/-- A number that one block has, and no other, is that of the block that is found, wherever the block stands. -/
theorem block?_eq_some_iff {g : Graph} {id : BlockId}
    (honly : ∀ b ∈ g.blocks, ∀ c ∈ g.blocks, b.id = id → c.id = id → b = c) {b : Block} :
    g.block? id = some b ↔ b ∈ g.blocks ∧ b.id = id := by
  constructor
  · exact mem_of_block?
  · rintro ⟨hb, rfl⟩
    obtain ⟨c, hc⟩ := exists_block? hb
    obtain ⟨hmem, hid⟩ := mem_of_block? hc
    rw [hc, honly b hb c hmem rfl hid]

/-- The number of the first block of a kind. -/
def firstOf? (g : Graph) (kind : BlockKind) : Option BlockId :=
  (g.blocks.find? (·.kind == kind)).map Block.id

/-- The number of the first start block. -/
def start? (g : Graph) : Option BlockId := g.firstOf? .start

/-- The number of the first end block. -/
def finish? (g : Graph) : Option BlockId := g.firstOf? .finish

/-- The edges that leave a block. -/
def outgoing (g : Graph) (id : BlockId) : List Edge := g.edges.filter (·.source == id)

/-- The edges that reach a block. -/
def incoming (g : Graph) (id : BlockId) : List Edge := g.edges.filter (·.target == id)

/-- The blocks that the edges of a block lead to. -/
def targets (g : Graph) (id : BlockId) : List BlockId := (g.outgoing id).map Edge.target

/-- Where the first outgoing edge leads; `none` where the path ends. -/
def successor? (g : Graph) (id : BlockId) : Option BlockId := (g.outgoing id).head?.map Edge.target

/-- The first outgoing edge with a tag. -/
def taggedEdge? (g : Graph) (id : BlockId) (branch : Branch) : Option Edge :=
  (g.outgoing id).find? (·.branch == some branch)

/-- The first outgoing edge with a label, the case of ASCII letters and the margins left out of account. -/
def labelledEdge? (g : Graph) (id : BlockId) (label : String) : Option Edge :=
  (g.outgoing id).find? fun e =>
    match e.label with
    | some l => sameIgnoringCase (Text.trim l.toList) (Text.trim label.toList)
    | none => false

/-- The edge taken on a branch: the tagged one, else the first whose label reads as the branch. -/
def branchEdge? (g : Graph) (id : BlockId) (branch : Branch) : Option Edge :=
  (g.taggedEdge? id branch).or (branch.labels.findSome? (g.labelledEdge? id))

/-- Where a branch leads. -/
def branchTarget? (g : Graph) (id : BlockId) (branch : Branch) : Option BlockId :=
  (g.branchEdge? id branch).map Edge.target

/-- The number that the next added block gets: its position in the list. -/
def nextId (g : Graph) : BlockId := g.blocks.length

/-- The chart with one more block, numbered `nextId`. -/
def addBlock (g : Graph) (kind : BlockKind) (label : String) : Graph :=
  { g with blocks := g.blocks ++ [⟨g.nextId, kind, label⟩] }

/-- The chart with one more edge. -/
def addEdge (g : Graph) (e : Edge) : Graph := { g with edges := g.edges ++ [e] }

/-- The chart with one more edge, without label and tag. -/
def connect (g : Graph) (source target : BlockId) : Graph := g.addEdge { source, target }

/-- The chart with one more edge, tagged with a branch and labelled with its name. -/
def connectBranch (g : Graph) (source target : BlockId) (branch : Branch) : Graph :=
  g.addEdge { source, target, label := some branch.name, branch := some branch }

end Graph

end Flowchart
