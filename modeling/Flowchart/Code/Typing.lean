import Flowchart.Graph.Search
import Flowchart.Instruction
import Flowchart.Program.Basic

/-!
# Types of variables

Labels declare no variables, C does.  A variable gets the type of the first thing that is assigned to it, the
blocks being taken breadth first from the start block.  Parameters have the types of the signature and are not
declared again.

* `Typing` — the types found so far; `Typing.declare` adds a variable once.
* `Typing.ofExpression` — the type of an expression.  It is a guess: what is neither text nor a decimal is
  taken for a whole number.
* `Typing.note` — what an instruction declares.
* `Graph.typing` — the types of the variables of a whole chart.
-/

namespace Flowchart

/-- Types of parameters, and of the other variables in the order of their first assignment. -/
structure Typing where
  parameters : Bindings DataType := []
  locals : Bindings DataType := []
  deriving Repr, DecidableEq

namespace Typing

/-- The type of a variable. -/
def get? (name : String) (t : Typing) : Option DataType :=
  (t.parameters.get? name).or (t.locals.get? name)

/-- Adds a variable.  A name that has a type keeps it, and what is no name is left out. -/
def declare (name : String) (type : DataType) (t : Typing) : Typing :=
  if Text.isName name.toList && (t.get? name).isNone then { t with locals := t.locals.set name type } else t

/-- The types that a signature gives. -/
def ofParameters (parameters : List Parameter) : Typing :=
  { parameters := parameters.foldl (fun b p => b.set p.name p.type) [] }

/-- The type of a call: that of the function's value, and a whole number if nothing else is known. -/
def ofCall (functions : FunctionTable) (name : String) : DataType :=
  match functions.get? name with
  | some f => if f.returnsValue then f.returnType else .int
  | none => .int

/-- A point with a digit on either side stands somewhere in the text. -/
def hasDecimal : Text → Bool
  | a :: '.' :: b :: t => (Text.isDigit a && Text.isDigit b) || hasDecimal ('.' :: b :: t)
  | _ :: t => hasDecimal t
  | [] => false

/-- The type of an expression that is neither a literal, a call nor a name: text if something in it is text,
else a decimal if something in it is a decimal. -/
def ofOperands (t : Typing) (e : Text) : DataType :=
  let operands := (Text.names e).filterMap fun name => t.get? (String.ofList name)
  if e.contains '"' || operands.contains .string then .string
  else if hasDecimal e || operands.contains .double then .double
  else .int

/-- The type of an expression. -/
def ofExpression (functions : FunctionTable) (t : Typing) (expression : Text) : DataType :=
  let e := Text.trim expression
  if (Literal.quoted? e).isSome then .string
  else if (Literal.numeral? e).isSome then if e.contains '.' then .double else .int
  else
    match Literal.call? e with
    | some c => ofCall functions (String.ofList c.name)
    | none => if Text.isName e then (t.get? (String.ofList e)).getD .int else t.ofOperands e

/-- Adds the variables to which an instruction assigns, those of the last clause of a counting loop left
out. -/
def note (functions : FunctionTable) (t : Typing) : Instruction → Typing
  | .assign (some target) expression => t.declare target (t.ofExpression functions expression)
  | .input names => names.foldl (fun t name => t.declare name .int) t
  | .call (some target) function _ => t.declare target (ofCall functions function)
  | .forLoop init _ _ =>
    match assignment? init with
    | some a => t.declare (String.ofList a.target) (t.ofExpression functions a.expression)
    | none => t
  | _ => t

/-- Adds the variables to which a block assigns.  A block that cannot be read assigns to none. -/
def noteBlock (functions : FunctionTable) (g : Graph) (t : Typing) (id : BlockId) : Typing :=
  match (g.block? id).map Block.instruction with
  | some (.ok i) => t.note functions i
  | _ => t

end Typing

/-- The types of the variables of a chart. -/
def Graph.typing (g : Graph) (functions : FunctionTable) (parameters : List Parameter) : Typing :=
  match g.start? with
  | some start => (g.breadthFirst start).foldl (Typing.noteBlock functions g) (.ofParameters parameters)
  | none => .ofParameters parameters

end Flowchart
