import Flowchart.Program.Basic
import Flowchart.Text.Basic

/-!
# Structured code

The code for a flowchart is a tree: statements follow one another, and loops and choices hold statements.
Every piece of the tree names the block it stands for, so that it can be told which blocks the code covers and
how often.

* `Statement` — statements on one line.
* `Code` — the tree.  `plain` stands for a block without branches and may hold any number of statements; start,
  merge and end blocks hold none.
* `Line`, `Code.lines` — the tree written on indented lines.
* `Code.blocks`, `Code.entries` — the blocks covered, and the blocks at which the bodies of do-while loops begin.
-/

namespace Flowchart

/-- A statement on one line. -/
inductive Statement where
  /-- An expression, evaluated for its effects. -/
  | expression (code : Text)
  | assign (target code : Text)
  /-- Copies a text into a variable. -/
  | copyText (target code : Text)
  /-- Reads a value of a type from the input. -/
  | scan (type : DataType) (target : Text)
  /-- Prints a fixed text on a line. -/
  | printText (text : Text)
  /-- Prints a value of a type on a line. -/
  | printValue (type : DataType) (code : Text)
  /-- Stands for a label that cannot be read. -/
  | remark (label : Text)
  deriving Repr, DecidableEq

/-- Statements, one after the other, with the blocks they stand for. -/
inductive Code where
  | done
  | plain (id : BlockId) (statements : List Statement) (next : Code)
  | ifThen (id : BlockId) (condition : Text) (body next : Code)
  | ifElse (id : BlockId) (condition : Text) (body other next : Code)
  /-- A loop that tests before its body, with what stands in front of the opening brace. -/
  | loop (id : BlockId) (header : Text) (body next : Code)
  /-- A loop that tests after its body: the block at which the body begins, and the block that tests. -/
  | doLoop (entry test : BlockId) (condition : Text) (body next : Code)
  /-- A loop that tests after its body, without a body. -/
  | emptyDo (id : BlockId) (condition : Text) (next : Code)
  deriving Repr, DecidableEq

/-- A line of text with the depth to which it is indented. -/
structure Line where
  depth : Nat
  text : Text
  deriving Repr, DecidableEq

/-- The line as it is written: one indentation is `width` spaces. -/
def Line.write (width : Nat) (l : Line) : Text := List.replicate (l.depth * width) ' ' ++ l.text ++ ['\n']

namespace Statement

/-- The conversion with which a value of a type is printed. -/
def printConversion : DataType → Text
  | .double => "%lf".toList
  | .string => "%s".toList
  | _ => "%d".toList

/-- The text of a call of `printf` with a format and the code of further arguments. -/
def printf (format further : Text) : Text :=
  "printf(\"".toList ++ format ++ "\\n\"".toList ++ further ++ ");".toList

/-- The text of a statement. -/
def text : Statement → Text
  | expression code => code ++ ";".toList
  | assign target code => target ++ " = ".toList ++ code ++ ";".toList
  | copyText target code => "strcpy(".toList ++ target ++ ", ".toList ++ code ++ ");".toList
  | scan .double target => "scanf(\"%lf\", &".toList ++ target ++ ");".toList
  | scan .string target => "scanf(\"%s\", ".toList ++ target ++ ");".toList
  | scan _ target => "scanf(\"%d\", &".toList ++ target ++ ");".toList
  | printText content => printf content []
  | printValue type code => printf (printConversion type) (", ".toList ++ code)
  | remark label => "// Unrecognized block: ".toList ++ label

end Statement

namespace Code

/-- The line that ends a loop with its test. -/
def whileLine (depth : Nat) (condition : Text) : Line :=
  ⟨depth, "\x7d while (".toList ++ condition ++ ");".toList⟩

/-- The line that begins a choice. -/
def ifLine (depth : Nat) (condition : Text) : Line := ⟨depth, "if (".toList ++ condition ++ ") \x7b".toList⟩

/-- The line that ends what a brace began. -/
def closeLine (depth : Nat) : Line := ⟨depth, "\x7d".toList⟩

/-- The line that begins a loop with its test at the end. -/
def doLine (depth : Nat) : Line := ⟨depth, "do \x7b".toList⟩

/-- The code on lines, the first statement at the given depth. -/
def lines : Nat → Code → List Line
  | _, done => []
  | depth, plain _ statements next => statements.map (fun s => ⟨depth, s.text⟩) ++ next.lines depth
  | depth, ifThen _ condition body next =>
    ifLine depth condition :: body.lines (depth + 1) ++ closeLine depth :: next.lines depth
  | depth, ifElse _ condition body other next =>
    ifLine depth condition :: body.lines (depth + 1)
      ++ ⟨depth, "\x7d else \x7b".toList⟩ :: other.lines (depth + 1)
      ++ closeLine depth :: next.lines depth
  | depth, loop _ header body next =>
    ⟨depth, header ++ " \x7b".toList⟩ :: body.lines (depth + 1) ++ closeLine depth :: next.lines depth
  | depth, doLoop _ _ condition body next =>
    doLine depth :: body.lines (depth + 1) ++ whileLine depth condition :: next.lines depth
  | depth, emptyDo _ condition next => doLine depth :: whileLine depth condition :: next.lines depth

/-- The blocks that the code covers, in the order in which their code begins.  The block that tests at the end
of a loop with a body is not among them: its condition is written with the loop. -/
def blocks : Code → List BlockId
  | done => []
  | plain id _ next => id :: next.blocks
  | ifThen id _ body next => id :: body.blocks ++ next.blocks
  | ifElse id _ body other next => id :: body.blocks ++ other.blocks ++ next.blocks
  | loop id _ body next => id :: body.blocks ++ next.blocks
  | doLoop _ _ _ body next => body.blocks ++ next.blocks
  | emptyDo id _ next => id :: next.blocks

/-- The blocks at which the bodies of loops begin that test at their end. -/
def entries : Code → List BlockId
  | done => []
  | plain _ _ next => next.entries
  | ifThen _ _ body next => body.entries ++ next.entries
  | ifElse _ _ body other next => body.entries ++ other.entries ++ next.entries
  | loop _ _ body next => body.entries ++ next.entries
  | doLoop entry _ _ body next => entry :: body.entries ++ next.entries
  | emptyDo _ _ next => next.entries

end Code

end Flowchart
