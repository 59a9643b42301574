import Flowchart.Fault
import Flowchart.Literal

/-!
# Instructions

The label of a block is a small statement.  What it may say depends on the kind of the block, and whoever
works with a block, to run it or to write code for it, reads its label in the same way.

* `Instruction` — what blocks tell to do.  Expressions and conditions in them are still to be read.
* `assignment?` — a text cut at its first lone equality sign.
* `withoutTerminator` — a statement without the semicolons it ends with.
* `Instruction.ofLabel` — reads a label, or says what is wrong with it.
* `Block.instruction` — the same for a block, with the fault that a run reports.
-/

namespace Flowchart

/-- What a block tells to do. -/
inductive Instruction where
  | start
  | finish
  | merge
  /-- Evaluate an expression, and bind a variable to the value if one is named. -/
  | assign (target : Option String) (expression : Text)
  /-- Read variables, one after the other. -/
  | input (names : List String)
  | output (expression : Text)
  | choose (condition : Text)
  | whileLoop (condition : Text)
  | forLoop (init condition increment : Text)
  | doWhile (condition : Text)
  /-- Call a function, and bind a variable to its value if one is named. -/
  | call (target : Option String) (function : String) (arguments : List Text)
  deriving Repr, DecidableEq

/-! ### Statements -/

/-- Characters that make a comparison sign of the equality sign after them. -/
def isComparing (c : Char) : Bool := c == '=' || c == '<' || c == '>' || c == '!'

/-- Cuts a text at its first equality sign that is no part of a comparison sign. -/
def loneEquals? (before : Option Char) : Text → Option (Text × Text)
  | [] => none
  | c :: t =>
    if c = '=' && t.head? != some '=' && !before.any isComparing then some ([], t)
    else (loneEquals? (some c) t).map fun p => (c :: p.1, p.2)

/-- A name and an expression. -/
structure Assignment where
  target : Text
  expression : Text
  deriving Repr, DecidableEq

/-- Reads an assignment: a name before the first lone equality sign, and something after it. -/
def assignment? (t : Text) : Option Assignment :=
  match loneEquals? none t with
  | some (left, right) =>
    let target := Text.trim left
    let expression := Text.trim right
    if Text.isName target && !expression.isEmpty then some ⟨target, expression⟩ else none
  | none => none

/-- The text without a run of one character at its end. -/
def withoutEnd (c : Char) (t : Text) : Text := (t.reverse.dropWhile (· == c)).reverse

/-- A statement without margins and without the semicolons it ends with. -/
def withoutTerminator (t : Text) : Text := Text.trimEnd (withoutEnd ';' (Text.trim t))

/-! ### Keywords -/

/-- The rest of a text that begins with the given lower-case letters, in upper or lower case. -/
def afterIgnoringCase? : Text → Text → Option Text
  | [], t => some t
  | _ :: _, [] => none
  | b :: bs, c :: t => if b = c.toLower then afterIgnoringCase? bs t else none

/-- No word goes on at the start of the text. -/
def atWordEnd (t : Text) : Bool := !t.head?.any Text.isWord

/-- The text after a colon that may stand, with blanks around it, at its start. -/
def afterColon (t : Text) : Text :=
  match Text.trimStart t with
  | ':' :: rest => Text.trimStart rest
  | rest => rest

/-- What follows a keyword: the whole word, perhaps with a colon, or its first letter with a colon. -/
def afterKeyword? (keyword : Text) (t : Text) : Option Text :=
  let byWord := (afterIgnoringCase? keyword t).bind fun rest => if atWordEnd rest then some rest else none
  match byWord with
  | some rest => some (afterColon rest)
  | none =>
    match (afterIgnoringCase? (keyword.take 1) t).map Text.trimStart with
    | some (':' :: rest) => some (Text.trimStart rest)
    | _ => none

/-- The text without the keyword it may begin with, and without margins. -/
def withoutKeyword (keyword : Text) (t : Text) : Text := Text.trim ((afterKeyword? keyword t).getD t)

/-- The header of a counting loop without the word `for` and without the parentheses around it. -/
def loopHeader (t : Text) : Text :=
  let header :=
    match Text.after? "for".toList t with
    | some rest => if atWordEnd rest then Text.trim rest else Text.trim t
    | none => Text.trim t
  match Text.enclosed? header with
  | some inner => Text.trim inner
  | none => header

/-! ### Labels -/

namespace Instruction

/-- Reads the label of an assignment block. -/
def readAssignment (t : Text) : Except String Instruction :=
  let statement := withoutTerminator t
  if statement.isEmpty then .error "empty statement"
  else
    match assignment? statement with
    | some a => .ok (.assign (some (String.ofList a.target)) a.expression)
    | none => .ok (.assign none statement)

/-- Reads the label of an input block: the variables, separated by commas. -/
def readInput (t : Text) : Except String Instruction :=
  let names := ((withoutKeyword "input".toList t).splitOn ',').map Text.trim |>.filter (!·.isEmpty)
  if names.isEmpty then .error "no variable to read" else .ok (.input (names.map String.ofList))

/-- Reads the label of an output block. -/
def readOutput (t : Text) : Except String Instruction :=
  let expression := withoutTerminator (withoutKeyword "output".toList t)
  if expression.isEmpty then .error "nothing to output" else .ok (.output expression)

/-- Reads the label of a block with a condition. -/
def readCondition (form : Text → Instruction) (t : Text) : Except String Instruction :=
  if t.isEmpty then .error "missing condition" else .ok (form t)

/-- Reads the label of a counting loop: three clauses with semicolons between them. -/
def readForLoop (t : Text) : Except String Instruction :=
  match Text.splitTop ';' (loopHeader t) with
  | [init, condition, increment] =>
    .ok (.forLoop (Text.trim init) (Text.trim condition) (Text.trim increment))
  | _ => .error "expected 'init; condition; increment'"

/-- Reads a call, perhaps assigned to a variable. -/
def readCall (t : Text) : Except String Instruction :=
  let statement := withoutTerminator t
  let (target, text) :=
    match assignment? statement with
    | some a => (some (String.ofList a.target), a.expression)
    | none => (none, statement)
  match Literal.call? text with
  | some c => .ok (.call target (String.ofList c.name) c.arguments)
  | none => .error "expected 'name(args)'"

/-- Reads the label of a block of some kind, or gives the reason why it cannot be read. -/
def ofLabel (kind : BlockKind) (label : Text) : Except String Instruction :=
  let t := Text.trim label
  match kind with
  | .start => .ok .start
  | .finish => .ok .finish
  | .merge => .ok .merge
  | .assignment => readAssignment t
  | .input => readInput t
  | .output => readOutput t
  | .conditional => readCondition .choose t
  | .loop => readCondition .whileLoop t
  | .doWhile => readCondition .doWhile t
  | .forLoop => readForLoop t
  | .functionCall => readCall t

end Instruction

/-- The instruction on a block. -/
def Block.instruction (b : Block) : Except Fault Instruction :=
  match Instruction.ofLabel b.kind b.label.toList with
  | .ok i => .ok i
  | .error reason => .error (.invalidLabel b.kind b.label reason)

end Flowchart
