import Flowchart.Bindings
import Flowchart.Graph.Validity
import Flowchart.Value

/-!
# Programs

A program is a main flowchart and a table of functions, each of them a flowchart with parameters.

* `DataType` — the declared types; `DataType.coerce` converts an argument where nothing is lost.
* `Parameter`, `Function` — a function: its body runs from its start block, and what its return variable stands
  for when the body ends is its value.
* `FunctionTable` — functions in the order in which their names were first inserted, with an index by name.
  Inserting a name again replaces the function and keeps its place.
* `Program`, `Program.validate` — the whole, and its structural check.
-/

namespace Flowchart

/-! ### Types -/

/-- The declared type of a parameter or of a result. -/
inductive DataType where
  | int
  | double
  | string
  | void
  deriving Repr, DecidableEq

namespace DataType

/-- Every type, in the order of their definition. -/
def all : List DataType := [int, double, string, void]

/-- The name of a type in messages and documents. -/
def name : DataType → String
  | int => "int"
  | double => "double"
  | string => "string"
  | void => "void"

/-- The C type of a scalar. -/
def keyword : DataType → String
  | int => "int"
  | double => "double"
  | string => "char*"
  | void => "void"

/-- Converts an argument to the type of its parameter where nothing is lost: a whole number for a float. -/
def coerce (t : DataType) (v : Value) : Value :=
  match t, v with
  | double, .int n => .float (Float.ofInt n.toInt)
  | _, v => v

end DataType

/-! ### Functions -/

/-- A parameter of a function. -/
structure Parameter where
  name : String
  type : DataType
  deriving Repr, DecidableEq

/-- A function: a flowchart with parameters and, perhaps, a result. -/
structure Function where
  name : String
  parameters : List Parameter := []
  returnType : DataType
  body : Graph := {}
  returnVariable : Option String := none
  deriving Repr, DecidableEq

namespace Function

/-- A function gives a value unless its type says otherwise. -/
def returnsValue (f : Function) : Bool := f.returnType != .void

/-- The variable whose value is the result, for a function that gives a value. -/
def resultVariable? (f : Function) : Option String :=
  if f.returnsValue then f.returnVariable else none

/-- The function has a block to start from and a block to end at. -/
def isComplete (f : Function) : Bool := f.body.start?.isSome && f.body.finish?.isSome

end Function

/-! ### Function tables -/

/-- Functions in the order of first insertion, and for each name the place of its function. -/
structure FunctionTable where
  functions : List Function := []
  places : Bindings Nat := []
  deriving Repr, DecidableEq

namespace FunctionTable

/-- Adds a function, or replaces the one of the same name at its place. -/
def insert (f : Function) (table : FunctionTable) : FunctionTable :=
  match table.places.get? f.name with
  | some place => { table with functions := table.functions.set place f }
  | none =>
    { functions := table.functions ++ [f]
      places := table.places.set f.name table.functions.length }

/-- The function of a name. -/
def get? (name : String) (table : FunctionTable) : Option Function :=
  (table.places.get? name).bind fun place => table.functions[place]?

/-- A function of the name is in the table. -/
def contains (name : String) (table : FunctionTable) : Bool := (table.places.get? name).isSome

/-- The number of functions. -/
def size (table : FunctionTable) : Nat := table.functions.length

/-- The functions in the order of first insertion. -/
def toList (table : FunctionTable) : List Function := table.functions

/-- The table made by inserting functions one after the other. -/
def ofList (functions : List Function) : FunctionTable :=
  functions.foldl (fun table f => table.insert f) {}

end FunctionTable

/-! ### Programs -/

/-- A main flowchart and its functions. -/
structure Program where
  main : Graph := {}
  functions : FunctionTable := {}
  deriving Repr, DecidableEq

/-- A check of a function's body, the name of the function added to a defect. -/
def Function.validate (f : Function) : Except Defect Unit :=
  match f.body.validate with
  | .ok () => .ok ()
  | .error d => .error (.inFunction f.name d)

/-- Checks the main flowchart, then the functions in the order of the table. -/
def Program.validate (p : Program) : Except Defect Unit := do
  p.main.validate
  p.functions.toList.forM Function.validate

/-! ### Editors -/

/-- Why the model of an editor is not a program. -/
inductive ConversionError where
  | invalidData (reason : String)
  | defect (d : Defect)
  deriving Repr, DecidableEq

/-- The message for a conversion error; a defect speaks for itself. -/
def ConversionError.message : ConversionError → String
  | invalidData reason => "Invalid custom data: " ++ reason
  | defect d => d.message

/-- Models from which a program can be made. -/
class ToProgram (α : Type) where
  toProgram : α → Except ConversionError Program

/-- A program is a model of itself. -/
instance : ToProgram Program where
  toProgram p := .ok p

end Flowchart
