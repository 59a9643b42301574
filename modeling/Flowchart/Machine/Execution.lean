import Flowchart.Condition.Evaluation
import Flowchart.Instruction
import Flowchart.Machine.Basic
import Flowchart.Program.Basic

/-!
# Executing blocks

A block is executed in an environment that sees the variables of the machine and can call functions.  A call
executes the blocks of a function's body, from its start block until its end block or the end of the path, in a
frame of its own; a function may call others in turn.

* `Flow` — where control goes after a block.
* `Machine.execute` — the effect of one block.  A counting loop runs its first clause when control comes from
  outside its body and its last clause when control comes back from the body.
* `Machine.runBody` — the blocks of a function's body, one after the other.  A request to stop is noticed
  before each of them.
* `Machine.call` — a call.  `room` is the number of calls that may still be nested; recursion is on it.  A body
  that needs more than `allowance` blocks leaves the call unfinished.

A call gives the machine back with the frames and the loops it had, however the call ends.
-/

namespace Flowchart

/-- What follows a block. -/
inductive Flow where
  /-- Control goes on at a block, or the path ends. -/
  | next (target : Option BlockId)
  /-- The block waits for values of these variables. -/
  | awaitInput (names : List String)
  deriving Repr, DecidableEq

/-- Where a condition leads: along the edge of its outcome, else along the first edge. -/
def Graph.afterCondition (g : Graph) (id : BlockId) (outcome : Bool) : Option BlockId :=
  (g.branchTarget? id (Branch.ofBool outcome)).or (g.successor? id)

/-- The frame in which a function's body runs: the parameters, bound to the arguments. -/
def Function.frame (f : Function) (name : String) (arguments : List Value) : Frame :=
  (f.parameters.zip arguments).foldl
    (fun frame p => frame.bind p.1.name (p.1.type.coerce p.2)) { function := name }

/-- The value of a function whose body ended with some frame; without a result it is zero. -/
def Function.result (f : Function) (frame : Option Frame) : Value :=
  ((f.resultVariable?.bind fun name => frame.bind (·.get? name))).getD (.int 0)

namespace Machine

/-- What expressions on blocks can see: the variables in scope, and functions to call. -/
def environment (call : String → List Value → Action Machine Value) : Environment Machine where
  lookup m name := m.scope.get? name
  call := call

/-! ### Blocks -/

/-- Runs a clause of a counting loop: an assignment binds its variable, any other text is evaluated for its
effects, and an empty clause does nothing. -/
def runClause (env : Environment Machine) (clause : Text) : Action Machine Unit :=
  if clause.isEmpty then pure ()
  else
    match assignment? clause with
    | some a => do
      let v ← evaluate env a.expression
      bind (String.ofList a.target) v
    | none => do
      let _ ← evaluate env clause
      pure ()

/-- Evaluates texts from left to right. -/
def evaluateEach (env : Environment Machine) : List Text → Action Machine (List Value)
  | [] => pure []
  | t :: rest => do
    let v ← evaluate env t
    let vs ← evaluateEach env rest
    pure (v :: vs)

/-- Carries out an instruction that stands on a block of a chart. -/
def perform (env : Environment Machine) (g : Graph) (id : BlockId) : Instruction → Action Machine Flow
  | .start | .merge => pure (.next (g.successor? id))
  | .finish => pure (.next none)
  | .assign target expression => do
    let v ← evaluate env expression
    bind? target v
    pure (.next (g.successor? id))
  | .input names => pure (.awaitInput names)
  | .output expression => do
    let v ← evaluate env expression
    print v
    pure (.next (g.successor? id))
  | .choose condition | .doWhile condition => do
    let outcome ← evaluateCondition env condition
    pure (.next (g.afterCondition id outcome))
  | .whileLoop condition => do
    let outcome ← evaluateCondition env condition
    noteLoop id outcome
    pure (.next (g.afterCondition id outcome))
  | .forLoop init condition increment => do
    let again ← inLoop id
    runClause env (if again then increment else init)
    let outcome ← evaluateCondition env condition
    noteLoop id outcome
    pure (.next (g.afterCondition id outcome))
  | .call target function arguments => do
    let values ← evaluateEach env arguments
    let v ← env.call function values
    bind? target v
    pure (.next (g.successor? id))

/-- Executes a block of a chart. -/
def execute (env : Environment Machine) (g : Graph) (b : Block) : Action Machine Flow := do
  let instruction ← Action.ofExcept b.instruction
  perform env g b.id instruction

/-! ### Functions -/

/-- Executes the blocks of a function's body until its end block or the end of the path. -/
def runBody (step : Block → Action Machine Flow) (function : String) (g : Graph) (finish : BlockId) :
    Nat → Option BlockId → Machine → Outcome Machine Unit
  | 0, _, _ => .unfinished
  | _ + 1, none, m => .done () m
  | allowance + 1, some id, m =>
    if id = finish then .done () m
    else
      let m := m.poll
      if m.stopRequested then .failed .cancelled m
      else
        match g.block? id with
        | none => .failed (.blockNotFound id) m
        | some b =>
          match step b m with
          | .done (.next target) m => runBody step function g finish allowance target m
          | .done (.awaitInput names) m => .failed (.inputInsideCall function (names.headD "")) m
          | .failed fault m => .failed fault m
          | .unfinished => .unfinished

/-- Gives the machine back to the caller, together with the value of the function. -/
def returnFrom (f : Function) (loops : List BlockId) : Outcome Machine Unit → Outcome Machine Value
  | .done () m => .done (f.result m.scope.top?) (m.leave loops)
  | .failed fault m => .failed fault (m.leave loops)
  | .unfinished => .unfinished

/-- Calls a function of a program. -/
def call (p : Program) (limit allowance : Nat) : (room : Nat) → String → List Value → Action Machine Value
  | room, name, arguments => fun m =>
    match p.functions.get? name with
    | none => .failed (.unknownFunction name) m
    | some f =>
      if arguments.length ≠ f.parameters.length then
        .failed (.argumentCount name f.parameters.length arguments.length) m
      else
        match room with
        | 0 => .failed (.callDepthExceeded name limit) m
        | room + 1 =>
          match f.body.start?, f.body.finish? with
          | some start, some finish =>
            let step := execute (environment (call p limit allowance room)) f.body
            returnFrom f m.loops
              (runBody step name f.body finish allowance (some start) (m.enter (f.frame name arguments)))
          | _, _ => .failed (.incompleteFunction name) m

/-- Executes a block of a program's main flowchart: calls may be nested up to the limit. -/
def executeMain (p : Program) (limit allowance : Nat) (b : Block) : Action Machine Flow :=
  execute (environment (call p limit allowance limit)) p.main b

end Machine

end Flowchart
