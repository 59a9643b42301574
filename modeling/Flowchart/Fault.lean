import Flowchart.Graph.Validity

/-!
# Faults of a run

What can go wrong while a block is executed.  A fault is a cause; its wording is `Fault.message`.
-/

namespace Flowchart

/-- The causes for which executing a block fails. -/
inductive Fault where
  | undefinedVariable (text : String)
  | unknownFunction (name : String)
  | argumentCount (function : String) (expected found : Nat)
  | incompleteFunction (name : String)
  | callDepthExceeded (function : String) (limit : Nat)
  | invalidLabel (kind : BlockKind) (label reason : String)
  | inputInsideCall (function name : String)
  | blockNotFound (id : BlockId)
  | cancelled
  deriving Repr, DecidableEq

/-- The message for a fault. -/
def Fault.message : Fault → String
  | undefinedVariable text => "Undefined variable '" ++ text ++ "'"
  | unknownFunction name => "Function '" ++ name ++ "' is not defined in the function table"
  | argumentCount function expected found =>
    "Function '" ++ function ++ "' expects " ++ toString expected ++ " argument(s), but " ++ toString found
      ++ " were given"
  | incompleteFunction name => "Function '" ++ name ++ "' has no Start or End block"
  | callDepthExceeded function limit =>
    "Call to '" ++ function ++ "' exceeded the maximum call depth of " ++ toString limit
  | invalidLabel kind label reason =>
    kind.name ++ " block has an invalid label '" ++ label ++ "': " ++ reason
  | inputInsideCall function name =>
    "Input for '" ++ name ++ "' was requested inside function '" ++ function
      ++ "', which runs synchronously and cannot suspend"
  | blockNotFound id => "Block " ++ blockMark id ++ " does not exist in the graph being executed"
  | cancelled => "Execution was cancelled"

end Flowchart
