import Flowchart.Code.Recovery

/-!
# The code for a program

A program becomes one C file: the headers, the prototypes of its functions, the functions in the order of the
table, and `main`.  A body begins with declarations of its variables.  A chart without a start block or an end
block has no code, only a remark.

* `CodeStyle` — what can be chosen.
* `Function.signature`, `Graph.body` — the parts.
* `Function.code`, `Program.codeLines`, `Program.code` — the functions and the whole.
-/

namespace Flowchart

/-- What can be chosen about the code: the width of an indentation, the size of the buffers for texts, and
whether functions are declared before they are defined. -/
structure CodeStyle where
  indentWidth : Nat := 4
  textCapacity : Nat := 256
  prototypes : Bool := true
  deriving Repr, DecidableEq

/-- Lines without indentation. -/
def flushLines (texts : List String) : List Line := texts.map fun t => ⟨0, t.toList⟩

/-- An empty line. -/
def emptyLine : Line := ⟨0, []⟩

/-- A declaration of a parameter in a signature. -/
def Parameter.declaration (p : Parameter) : Text := p.type.keyword.toList ++ " ".toList ++ p.name.toList

/-- The signature of a function. -/
def Function.signature (f : Function) : Text :=
  let parameters :=
    if f.parameters.isEmpty then "void".toList
    else ", ".toList.intercalate (f.parameters.map Parameter.declaration)
  f.returnType.keyword.toList ++ " ".toList ++ f.name.toList ++ "(".toList ++ parameters ++ ")".toList

/-- The declaration of a variable: a text is kept in a buffer. -/
def CodeStyle.declaration (style : CodeStyle) (name : String) (type : DataType) : Text :=
  match type with
  | .string => "char ".toList ++ name.toList ++ "[".toList ++ (toString style.textCapacity).toList ++ "];".toList
  | other => other.keyword.toList ++ " ".toList ++ name.toList ++ ";".toList

/-- The code for a chart: the declarations of its variables, then its statements. -/
def Graph.body (g : Graph) (style : CodeStyle) (functions : FunctionTable) (parameters : List Parameter) :
    List Line :=
  let typing := g.typing functions parameters
  let declarations := typing.locals.map fun p => (⟨1, style.declaration p.1 p.2⟩ : Line)
  declarations ++ ((g.code functions typing).getD .done).lines 1

/-- The line that gives back the value of a function. -/
def Function.returnLine (f : Function) : List Line :=
  match f.resultVariable? with
  | some name => [⟨1, "return ".toList ++ name.toList ++ ";".toList⟩]
  | none => []

/-- The code for a function. -/
def Function.code (f : Function) (style : CodeStyle) (functions : FunctionTable) : List Line :=
  if f.isComplete then
    ⟨0, f.signature ++ " \x7b".toList⟩ :: f.body.body style functions f.parameters
      ++ f.returnLine ++ [Code.closeLine 0]
  else [⟨0, "// Incomplete function '".toList ++ f.name.toList ++ "': missing Start or End block".toList⟩]

namespace Program

/-- The prototypes of the functions that have code, and an empty line if there are any. -/
def prototypes (p : Program) : List Line :=
  let complete := p.functions.toList.filter Function.isComplete
  complete.map (fun f => ⟨0, f.signature ++ ";".toList⟩) ++ if complete.isEmpty then [] else [emptyLine]

/-- The functions, each with an empty line after it. -/
def functionLines (p : Program) (style : CodeStyle) : List Line :=
  p.functions.toList.flatMap fun f => f.code style p.functions ++ [emptyLine]

/-- The code for the main chart. -/
def mainLines (p : Program) (style : CodeStyle) : List Line :=
  ⟨0, "int main() \x7b".toList⟩ :: p.main.body style p.functions []
    ++ [⟨1, "return 0;".toList⟩, Code.closeLine 0]

/-- The code for a program on lines. -/
def codeLines (p : Program) (style : CodeStyle) : List Line :=
  if p.main.start?.isSome && p.main.finish?.isSome then
    flushLines ["#include <stdio.h>", "#include <stdlib.h>", "#include <string.h>", ""]
      ++ (if style.prototypes then p.prototypes else [])
      ++ p.functionLines style ++ p.mainLines style
  else flushLines ["// Incomplete flowchart: missing Start or End block"]

/-- The code for a program. -/
def code (p : Program) (style : CodeStyle) : String :=
  String.ofList ((p.codeLines style).flatMap (Line.write style.indentWidth))

end Program

end Flowchart
