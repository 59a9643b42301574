import Flowchart.Action
import Flowchart.Expression.Basic
import Flowchart.Scope

/-!
# Evaluating expressions

An expression is evaluated in an environment: something that knows the variables and can call functions.  The
environment works on a state of its own, which a call may change, so the order of calls matters: arguments are
evaluated from left to right and before the call they belong to.

* `Environment` — look-up and calls over a state.
* `Scope.environment` — a scope on its own, in which no function is known.
* `Expression.eval`, `evaluate` — the value of an expression, and of a text.
-/

namespace Flowchart

/-- What an expression can see: the variables, and the functions. -/
structure Environment (σ : Type) where
  lookup : σ → String → Option Value
  call : String → List Value → Action σ Value

/-- A scope by itself: its variables, and no function. -/
def Scope.environment : Environment Scope where
  lookup s name := s.get? name
  call name _ := .fail (.unknownFunction name)

namespace Environment

variable {σ : Type}

/-- The value of a variable. -/
def variableValue (env : Environment σ) (name : String) : Action σ Value := fun s =>
  match env.lookup s name with
  | some v => .done v s
  | none => .failed (.undefinedVariable name) s

/-- The value of an arithmetic text. -/
def arithmeticValue (env : Environment σ) (source : Text) : Action σ Value := fun s =>
  .done (Arithmetic.fold (env.lookup s) source) s

end Environment

namespace Expression

mutual

/-- The value of an expression. -/
def eval {σ : Type} (env : Environment σ) : Expression → Action σ Value
  | .literal v => pure v
  | .call name arguments => do
    let values ← evalAll env arguments
    env.call name values
  | .arithmetic source => env.arithmeticValue source
  | .named name => env.variableValue name
  | .unreadable source => .fail (.undefinedVariable (String.ofList source))

/-- The values of expressions, from left to right. -/
def evalAll {σ : Type} (env : Environment σ) : List Expression → Action σ (List Value)
  | [] => pure []
  | e :: rest => do
    let v ← eval env e
    let vs ← evalAll env rest
    pure (v :: vs)

end

end Expression

/-- The value of a text read as an expression. -/
def evaluate {σ : Type} (env : Environment σ) (t : Text) : Action σ Value :=
  (Expression.read t).eval env

end Flowchart
