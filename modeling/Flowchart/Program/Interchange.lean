import Flowchart.Json.Printer
import Flowchart.Json.Reader
import Flowchart.Program.Basic
import Flowchart.Scope

/-!
# Programs as documents

Programs are exchanged as JSON documents.  Reading is forgiving where editors differ: fields with a natural
default may be left out, fields with other names are passed over, a record may be written as an array of its
fields, and block kinds may be written by the constants of the editor, two of them outdated.  It is strict
otherwise: a repeated field, a missing field, a field of the wrong sort or an unknown name is refused.

* `BlockKind.ofName?`, `Branch.ofName?`, `DataType.ofName?` — names in documents.
* `Graph.ofJson?`, `Function.ofJson?`, `Program.ofJson?` and the `toJson` of each.
* `Value.ofJson?`, `Value.toJson` — values, tagged with their sort.
* `Program.read?`, `Program.write` — whole texts.
-/

namespace Flowchart

open Json (member ofString ofNat fields? arrayOf?)

/-! ### Reading fields -/

/-- A field that must be present. -/
def required? {α : Type} (read? : Json → Option α) (field : Option Json) : Option α :=
  field.bind read?

/-- A field with a default for its absence. -/
def defaulted? {α : Type} (default : α) (read? : Json → Option α) (field : Option Json) : Option α :=
  match field with
  | none => some default
  | some j => read? j

/-- A value that may be absent. -/
def nullable? {α : Type} (read? : Json → Option α) (j : Json) : Option (Option α) :=
  match j with
  | .null => some none
  | j => (read? j).map some

/-- A value, or nothing, in a document. -/
def nullableJson {α : Type} (toJson : α → Json) : Option α → Json
  | none => .null
  | some a => toJson a

/-! ### Names -/

/-- The names that editors give to a block kind. -/
def BlockKind.editorNames : BlockKind → List String
  | start => ["START"]
  | finish => ["END"]
  | assignment => ["ASSIGNMENT", "PROCESS"]
  | input => ["INPUT"]
  | output => ["OUTPUT", "IO"]
  | conditional => ["CONDITIONAL"]
  | loop => ["LOOP"]
  | forLoop => ["FOR_LOOP"]
  | doWhile => ["DO_WHILE"]
  | merge => ["MERGE"]
  | functionCall => ["FUNCTION_CALL"]

/-- The block kind of a name. -/
def BlockKind.ofName? (name : String) : Option BlockKind :=
  all.find? fun kind => kind.name == name || kind.editorNames.contains name

/-- The branch of a name. -/
def Branch.ofName? (name : String) : Option Branch :=
  [whenTrue, whenFalse].find? fun branch => branch.name == name

/-- The type of a name. -/
def DataType.ofName? (name : String) : Option DataType := all.find? fun type => type.name == name

/-- Reads a block kind by any of its names. -/
def BlockKind.ofJson? (j : Json) : Option BlockKind := j.tag?.bind ofName?

/-- Writes a block kind by its own name. -/
def BlockKind.toJson (kind : BlockKind) : Json := ofString kind.name

/-- Reads a branch. -/
def Branch.ofJson? (j : Json) : Option Branch := j.tag?.bind ofName?

/-- Writes a branch. -/
def Branch.toJson (branch : Branch) : Json := ofString branch.name

/-- Reads a type. -/
def DataType.ofJson? (j : Json) : Option DataType := j.tag?.bind ofName?

/-- Writes a type. -/
def DataType.toJson (type : DataType) : Json := ofString type.name

/-! ### Charts -/

/-- Reads a block; its label may be left out. -/
def Block.ofJson? (j : Json) : Option Block := do
  match ← fields? ["id", "kind", "label"] j with
  | [id, kind, label] =>
    pure {
      id := ← required? Json.natural? id
      kind := ← required? BlockKind.ofJson? kind
      label := ← defaulted? "" Json.text? label }
  | _ => none

/-- Writes a block with all its fields. -/
def Block.toJson (b : Block) : Json :=
  .object [member "id" (ofNat b.id), member "kind" b.kind.toJson, member "label" (ofString b.label)]

/-- Reads an edge; its label and its tag may be left out. -/
def Edge.ofJson? (j : Json) : Option Edge := do
  match ← fields? ["source", "target", "label", "branch"] j with
  | [source, target, label, branch] =>
    pure {
      source := ← required? Json.natural? source
      target := ← required? Json.natural? target
      label := ← defaulted? none (nullable? Json.text?) label
      branch := ← defaulted? none (nullable? Branch.ofJson?) branch }
  | _ => none

/-- Writes an edge with all its fields; what it lacks is null. -/
def Edge.toJson (e : Edge) : Json :=
  .object [
    member "source" (ofNat e.source), member "target" (ofNat e.target),
    member "label" (nullableJson ofString e.label), member "branch" (nullableJson Branch.toJson e.branch)]

/-- Reads a chart. -/
def Graph.ofJson? (j : Json) : Option Graph := do
  match ← fields? ["blocks", "edges"] j with
  | [blocks, edges] =>
    pure {
      blocks := ← required? (arrayOf? Block.ofJson?) blocks
      edges := ← required? (arrayOf? Edge.ofJson?) edges }
  | _ => none

/-- Writes a chart. -/
def Graph.toJson (g : Graph) : Json :=
  .object [member "blocks" (.array (g.blocks.map Block.toJson)), member "edges" (.array (g.edges.map Edge.toJson))]

/-! ### Functions and programs -/

/-- Reads a parameter. -/
def Parameter.ofJson? (j : Json) : Option Parameter := do
  match ← fields? ["name", "type"] j with
  | [name, type] =>
    pure { name := ← required? Json.text? name, type := ← required? DataType.ofJson? type }
  | _ => none

/-- Writes a parameter. -/
def Parameter.toJson (p : Parameter) : Json :=
  .object [member "name" (ofString p.name), member "type" p.type.toJson]

/-- Reads a function; its parameters and its return variable may be left out. -/
def Function.ofJson? (j : Json) : Option Function := do
  match ← fields? ["name", "parameters", "return_type", "body", "return_variable"] j with
  | [name, parameters, returnType, body, returnVariable] =>
    pure {
      name := ← required? Json.text? name
      parameters := ← defaulted? [] (arrayOf? Parameter.ofJson?) parameters
      returnType := ← required? DataType.ofJson? returnType
      body := ← required? Graph.ofJson? body
      returnVariable := ← defaulted? none (nullable? Json.text?) returnVariable }
  | _ => none

/-- Writes a function with all its fields. -/
def Function.toJson (f : Function) : Json :=
  .object [
    member "name" (ofString f.name), member "parameters" (.array (f.parameters.map Parameter.toJson)),
    member "return_type" f.returnType.toJson, member "body" f.body.toJson,
    member "return_variable" (nullableJson ofString f.returnVariable)]

/-- Reads a program; its functions may be left out. -/
def Program.ofJson? (j : Json) : Option Program := do
  match ← fields? ["main", "functions"] j with
  | [main, functions] =>
    pure {
      main := ← required? Graph.ofJson? main
      functions := FunctionTable.ofList (← defaulted? [] (arrayOf? Function.ofJson?) functions) }
  | _ => none

/-- Writes a program; the functions stand in the order of the table. -/
def Program.toJson (p : Program) : Json :=
  .object [member "main" p.main.toJson, member "functions" (.array (p.functions.toList.map Function.toJson))]

/-- Reads a program from the text of a document. -/
def Program.read? (text : String) : Option Program := (Json.read? text.toList).bind ofJson?

/-- Writes a program as the text of a document. -/
def Program.write (p : Program) : String := String.ofList (Json.pretty 0 p.toJson)

/-! ### Values -/

/-- Reads a value: an object whose only member is named for the sort. -/
def Value.ofJson? : Json → Option Value
  | .object [(some "Int", j)] => (j.integer?.bind int64Of?).map .int
  | .object [(some "Float", j)] => j.float?.map .float
  | .object [(some "Bool", .bool b)] => some (.bool b)
  | .object [(some "Str", j)] => j.text?.map .text
  | _ => none

/-- Writes a value.  A float that is no number or infinite has no form of its own. -/
def Value.toJson : Value → Json
  | .int n => .object [member "Int" (.number (Decimal.integerText n.toInt))]
  | .float x =>
    .object [member "Float" (match Decimal.interchange? x with
      | some literal => .number literal
      | none => .null)]
  | .bool b => .object [member "Bool" (.bool b)]
  | .text s => .object [member "Str" (ofString s)]

/-- Writes a snapshot: an object with the variables as members. -/
def Snapshot.toJson (s : Snapshot) : Json := .object (s.map fun pair => member pair.1 pair.2.toJson)

end Flowchart
