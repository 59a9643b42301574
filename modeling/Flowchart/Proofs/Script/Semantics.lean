import Flowchart.Machine.Execution
import Flowchart.Proofs.Script.Labels
import Flowchart.Proofs.Script.Layout

/-!
# What a structured program means

The meaning of a script needs no blocks, no edges and no list of loops: a choice runs one branch or the other,
a loop runs its body as long as its condition holds, a call runs the script of the function in a frame of its
own.  The first fault ends the run, be it a label that cannot be read.

* `Store` — what the statements read and change: variables and output.
* `Action.repeatWhile` — a test, and again and again a body before it.  The number of rounds is bounded; a loop
  that needs more is unfinished.
* `Script.run` — the meaning of a script, where every loop may take so many rounds each time it is entered.
* `Plan`, `Plan.call`, `Plan.run` — outlines for a main chart and for the functions, and what they mean.
* `Program.Follows` — the charts of a program show the outlines of a plan.
-/

namespace Flowchart

/-! ### Stores -/

/-- What statements read and change. -/
structure Store where
  scope : Scope := {}
  output : String := ""
  deriving DecidableEq

namespace Store

/-- What expressions can see: the variables in scope, and functions to call. -/
def environment (call : String → List Value → Action Store Value) : Environment Store where
  lookup s name := s.scope.get? name
  call := call

/-- Binds a variable, if one is named. -/
def bind? (name : Option String) (v : Value) : Action Store Unit :=
  match name with
  | some name => .update fun s => { s with scope := s.scope.set name v }
  | none => pure ()

/-- Prints a value on a line of its own. -/
def print (v : Value) : Action Store Unit :=
  .update fun s => { s with output := (s.output ++ v.display).push '\n' }

/-- Runs a clause of a counting loop. -/
def runClause (env : Environment Store) (clause : Text) : Action Store Unit :=
  if clause.isEmpty then pure ()
  else
    match assignment? clause with
    | some a => do
      let v ← evaluate env a.expression
      bind? (some (String.ofList a.target)) v
    | none => do
      let _ ← evaluate env clause
      pure ()

/-- Evaluates texts from left to right. -/
def evaluateEach (env : Environment Store) : List Text → Action Store (List Value)
  | [] => pure []
  | t :: rest => do
    let v ← evaluate env t
    let vs ← evaluateEach env rest
    pure (v :: vs)

/-- Carries out a statement without branches. -/
def carryOut (env : Environment Store) : Instruction → Action Store Unit
  | .assign target expression => do
    let v ← evaluate env expression
    bind? target v
  | .output expression => do
    let v ← evaluate env expression
    print v
  | .call target function arguments => do
    let values ← evaluateEach env arguments
    let v ← env.call function values
    bind? target v
  | _ => pure ()

/-- The store at the start of a function. -/
def enter (frame : Frame) (s : Store) : Store := { s with scope := s.scope.push frame }

/-- The store back in the caller. -/
def leave (s : Store) : Store := { s with scope := s.scope.pop }

/-- Gives the store back to the caller, together with the value of the function. -/
def returnFrom (f : Function) : Outcome Store Unit → Outcome Store Value
  | .done () s => .done (f.result s.scope.top?) s.leave
  | .failed fault s => .failed fault s.leave
  | .unfinished => .unfinished

end Store

/-! ### Scripts -/

/-- Runs a body as long as a test succeeds, for a bounded number of rounds. -/
def Action.repeatWhile {σ : Type} (test : Action σ Bool) (body : Action σ Unit) : (rounds : Nat) → Action σ Unit
  | 0 => fun _ => .unfinished
  | rounds + 1 => do
    let again ← test
    if again then
      body
      repeatWhile test body rounds
    else pure ()

namespace Script

/-- The condition on a block of a script. -/
def test (env : Environment Store) (b : Block) : Action Store Bool := do
  let i ← Action.ofExcept b.instruction
  evaluateCondition env i.condition

/-- What a script does.  Every loop may take `rounds` rounds each time it is entered. -/
def run (env : Environment Store) (rounds : Nat) : Script → Action Store Unit
  | done => pure ()
  | simple kind node next => do
    let i ← Action.ofExcept (node.block kind.kind).instruction
    Store.carryOut env i
    next.run env rounds
  | choice test _ yes no next => do
    let outcome ← Script.test env (test.block .conditional)
    (if outcome then yes.run env rounds else no.run env rounds : Action Store Unit)
    next.run env rounds
  | loop kind head body next => do
    let i ← Action.ofExcept (head.block kind.kind).instruction
    Store.runClause env i.init
    Action.repeatWhile (evaluateCondition env i.condition)
      (do
        body.run env rounds
        Store.runClause env i.increment)
      rounds
    next.run env rounds
  | doLoop _ test body next => do
    body.run env rounds
    Action.repeatWhile (Script.test env (test.block .doWhile)) (body.run env rounds) rounds
    next.run env rounds

/-- No statement of the script asks for a value. -/
def AsksNothing (s : Script) : Prop := ∀ b ∈ s.blocks, b.kind ≠ .input

end Script

/-! ### Programs -/

/-- Outlines for a main chart and for the bodies of functions. -/
structure Plan where
  main : Outline
  body : String → Outline

/-- The charts of a program show the outlines of a plan. -/
structure Program.Follows (p : Program) (plan : Plan) : Prop where
  main : p.main.Shows plan.main
  body : ∀ name f, p.functions.get? name = some f → f.body.Shows (plan.body name)

namespace Plan

/-- What a call of a planned function does.  `room` is the number of calls that may still be nested. -/
def call (plan : Plan) (functions : FunctionTable) (limit rounds : Nat) :
    (room : Nat) → String → List Value → Action Store Value
  | room, name, arguments => fun s =>
    match functions.get? name with
    | none => .failed (.unknownFunction name) s
    | some f =>
      if arguments.length ≠ f.parameters.length then
        .failed (.argumentCount name f.parameters.length arguments.length) s
      else
        match room with
        | 0 => .failed (.callDepthExceeded name limit) s
        | room + 1 =>
          let env := Store.environment (call plan functions limit rounds room)
          Store.returnFrom f ((plan.body name).script.run env rounds (s.enter (f.frame name arguments)))

/-- What a planned program does: calls may be nested up to the limit. -/
def run (plan : Plan) (functions : FunctionTable) (limit rounds : Nat) : Action Store Unit :=
  plan.main.script.run (Store.environment (plan.call functions limit rounds limit)) rounds

/-- No statement of the plan asks for a value. -/
structure AsksNothing (plan : Plan) : Prop where
  main : plan.main.script.AsksNothing
  body : ∀ name, (plan.body name).script.AsksNothing

end Plan

end Flowchart
