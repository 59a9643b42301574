import Flowchart.Program.Interchange
import Flowchart.Proofs.FunctionTable
import Flowchart.Proofs.Json.Documents

/-!
# Programs are read as they were written

A program is written as a document and the document as a text.  The text gives back the document, by the laws of
the pretty layout; here the document gives back the program, record by record.

* `Json.fields?_record` — a record that is written with all its fields is read with all its fields.
* `ofJson?_toJson` of every kind of record — the record is read as it was written; `wellformed_toJson` — the
  document that is written for it is one that a text can stand for.
* `Program.Exchangeable` — the numbers of blocks and the ends of edges are below 2^64, and the table of functions
  was made by insertions.
* `Program.document_of_write` — the text that is written for a program stands for its document.
* **`Program.read_write`** — such a program is read from the text that is written for it.
-/

namespace Flowchart

open Json (member ofString ofNat fields? field? valuesOf arrayOf? Wellformed)

/-! ### Records -/

namespace Json

/-- A record: an object that gives a value to each of its names. -/
def record (names : List String) (values : List Json) : Json :=
  .object ((names.zip values).map fun field => member field.1 field.2)

theorem valuesOf_cons (name other : String) (value : Json) (members : List (JsonString × Json)) :
    valuesOf name (member other value :: members) =
      if other = name then value :: valuesOf name members else valuesOf name members := by
  by_cases h : other = name <;> simp [valuesOf, member, h]

/-- Members give nothing to a name that none of them has. -/
theorem valuesOf_eq_nil {name : String} {fields : List (String × Json)} (h : ∀ field ∈ fields, field.1 ≠ name) :
    valuesOf name (fields.map fun field => member field.1 field.2) = [] := by
  induction fields with
  | nil => rfl
  | cons field fields ih =>
    rw [List.map_cons, valuesOf_cons, if_neg (h field List.mem_cons_self)]
    exact ih fun field hmem => h field (List.mem_cons_of_mem _ hmem)

/-- Members without a repeated name give each name its value. -/
theorem valuesOf_eq_singleton {fields : List (String × Json)} (hnames : (fields.map Prod.fst).Nodup) {name : String}
    {value : Json} (h : (name, value) ∈ fields) :
    valuesOf name (fields.map fun field => member field.1 field.2) = [value] := by
  induction fields with
  | nil => cases h
  | cons field fields ih =>
    obtain ⟨hfirst, hnames⟩ := List.nodup_cons.mp hnames
    rw [List.map_cons, valuesOf_cons]
    rcases List.mem_cons.mp h with rfl | hmem
    · rw [if_pos rfl, valuesOf_eq_nil fun field hmem heq => hfirst (List.mem_map.mpr ⟨field, hmem, heq⟩)]
    · have hne : field.1 ≠ name := fun heq => hfirst (List.mem_map.mpr ⟨_, hmem, heq.symm⟩)
      rw [if_neg hne]
      exact ih hnames hmem

/-- Elements are read one by one. -/
theorem mapM_map_eq_some {α β γ : Type} {write : α → β} {read? : β → Option γ} {result : α → γ} {xs : List α}
    (h : ∀ x ∈ xs, read? (write x) = some (result x)) : (xs.map write).mapM read? = some (xs.map result) := by
  induction xs with
  | nil => rfl
  | cons x xs ih =>
    have hrest := ih fun x hmem => h x (List.mem_cons_of_mem _ hmem)
    simp [List.mapM_cons, h x List.mem_cons_self, hrest]

/-- Members without a repeated name are read by their names. -/
theorem mapM_field?_fields {fields : List (String × Json)} (hnames : (fields.map Prod.fst).Nodup) :
    (fields.map Prod.fst).mapM (fun name => field? name (fields.map fun field => member field.1 field.2)) =
      some (fields.map fun field => some field.2) := by
  refine mapM_map_eq_some fun field hmem => ?_
  rw [field?, valuesOf_eq_singleton hnames hmem]

/-- A record that is written with all its fields is read with all its fields. -/
theorem fields?_record {names : List String} {values : List Json} (hnames : names.Nodup)
    (hlength : names.length = values.length) : fields? names (record names values) = some (values.map some) := by
  have hfirst : (names.zip values).map Prod.fst = names := List.map_fst_zip (Nat.le_of_eq hlength)
  have hsecond : ((names.zip values).map fun field => some field.2) = values.map some :=
    calc ((names.zip values).map fun field => some field.2)
      _ = ((names.zip values).map Prod.snd).map some := List.map_map.symm
      _ = values.map some := by rw [List.map_snd_zip (Nat.le_of_eq hlength.symm)]
  have htexts : ¬ (((names.zip values).map fun field => member field.1 field.2).any fun m => m.1.isNone) = true := by
    simp [member]
  have hread := mapM_field?_fields (hfirst.symm ▸ hnames)
  rw [hfirst, hsecond] at hread
  rw [record, fields?, if_neg htexts, hread]

theorem wellformed_record (names : List String) {values : List Json} (h : ∀ j ∈ values, Wellformed j) :
    Wellformed (record names values) := by
  refine .object (fun m hmem => ?_) fun m hmem => ?_
  · obtain ⟨field, -, rfl⟩ := List.mem_map.mp hmem
    rfl
  · obtain ⟨field, hfield, rfl⟩ := List.mem_map.mp hmem
    exact h field.2 (List.of_mem_zip hfield).2

theorem arrayOf?_map {α : Type} {read? : Json → Option α} {toJson : α → Json} {xs : List α}
    (h : ∀ x ∈ xs, read? (toJson x) = some x) : arrayOf? read? (.array (xs.map toJson)) = some xs := by
  rw [arrayOf?, mapM_map_eq_some h, List.map_id']

theorem wellformed_map {α : Type} {toJson : α → Json} {xs : List α} (h : ∀ x ∈ xs, Wellformed (toJson x)) :
    Wellformed (.array (xs.map toJson)) := by
  refine .array fun j hmem => ?_
  obtain ⟨x, hx, rfl⟩ := List.mem_map.mp hmem
  exact h x hx

theorem nullable?_nullableJson {α : Type} {read? : Json → Option α} {toJson : α → Json}
    (hread : ∀ a, read? (toJson a) = some a) (hnull : ∀ a, toJson a ≠ .null) (value : Option α) :
    nullable? read? (nullableJson toJson value) = some value := by
  cases value with
  | none => rfl
  | some a =>
    have hskip : nullable? read? (toJson a) = (read? (toJson a)).map some := by
      rw [nullable?]
      exact hnull a
    rw [nullableJson, hskip, hread]
    rfl

theorem text?_ofString (s : String) : text? (ofString s) = some s := rfl

theorem nullable?_text (value : Option String) :
    nullable? Json.text? (nullableJson ofString value) = some value :=
  @nullable?_nullableJson String text? ofString text?_ofString (fun _ => nofun) value

theorem wellformed_nullableJson {α : Type} {toJson : α → Json} (h : ∀ a, Wellformed (toJson a)) (value : Option α) :
    Wellformed (nullableJson toJson value) := by
  cases value with
  | none => exact .null
  | some a => exact h a

end Json

/-! ### Names -/

theorem BlockKind.ofJson?_toJson (kind : BlockKind) : ofJson? kind.toJson = some kind := by
  cases kind <;> decide

theorem Branch.ofJson?_toJson (branch : Branch) : ofJson? branch.toJson = some branch := by
  cases branch <;> decide

theorem Branch.wellformed_toJson (branch : Branch) : Wellformed branch.toJson := .string branch.name

theorem DataType.ofJson?_toJson (type : DataType) : ofJson? type.toJson = some type := by
  cases type <;> decide

/-! ### Charts -/

/-- The numbers of the blocks and the ends of the edges are numbers that documents hold. -/
structure Graph.Numbered (g : Graph) : Prop where
  blocks : ∀ b ∈ g.blocks, b.id < Nat.pow 2 64
  edges : ∀ e ∈ g.edges, e.source < Nat.pow 2 64 ∧ e.target < Nat.pow 2 64

instance (g : Graph) : Decidable g.Numbered :=
  decidable_of_iff
    ((∀ b ∈ g.blocks, b.id < Nat.pow 2 64) ∧ ∀ e ∈ g.edges, e.source < Nat.pow 2 64 ∧ e.target < Nat.pow 2 64)
    ⟨fun h => ⟨h.1, h.2⟩, fun h => ⟨h.blocks, h.edges⟩⟩

theorem Block.toJson_eq (b : Block) :
    b.toJson = Json.record ["id", "kind", "label"] [ofNat b.id, b.kind.toJson, ofString b.label] := rfl

theorem Block.wellformed_toJson (b : Block) : Wellformed b.toJson := by
  rw [toJson_eq]
  exact Json.wellformed_record _ (by simp [Json.wellformed_ofNat, BlockKind.toJson, Wellformed.string])

theorem Block.ofJson?_toJson {b : Block} (h : b.id < Nat.pow 2 64) : ofJson? b.toJson = some b := by
  rw [ofJson?, toJson_eq, Json.fields?_record (by decide) rfl]
  simp [required?, defaulted?, Json.natural?_ofNat h, BlockKind.ofJson?_toJson, Json.text?_ofString]

theorem Edge.toJson_eq (e : Edge) :
    e.toJson = Json.record ["source", "target", "label", "branch"]
      [ofNat e.source, ofNat e.target, nullableJson ofString e.label, nullableJson Branch.toJson e.branch] := rfl

theorem Edge.wellformed_toJson (e : Edge) : Wellformed e.toJson := by
  have hlabel : Wellformed (nullableJson ofString e.label) := Json.wellformed_nullableJson .string e.label
  have hbranch : Wellformed (nullableJson Branch.toJson e.branch) :=
    Json.wellformed_nullableJson Branch.wellformed_toJson e.branch
  rw [toJson_eq]
  exact Json.wellformed_record _ (by simp [Json.wellformed_ofNat, hlabel, hbranch])

theorem Edge.ofJson?_toJson {e : Edge} (h : e.source < Nat.pow 2 64 ∧ e.target < Nat.pow 2 64) :
    ofJson? e.toJson = some e := by
  have hbranch : nullable? Branch.ofJson? (nullableJson Branch.toJson e.branch) = some e.branch :=
    Json.nullable?_nullableJson Branch.ofJson?_toJson (fun _ => nofun) e.branch
  rw [ofJson?, toJson_eq, Json.fields?_record (by decide) rfl]
  simp [required?, defaulted?, Json.natural?_ofNat h.1, Json.natural?_ofNat h.2, Json.nullable?_text, hbranch]

theorem Graph.toJson_eq (g : Graph) :
    g.toJson = Json.record ["blocks", "edges"]
      [.array (g.blocks.map Block.toJson), .array (g.edges.map Edge.toJson)] := rfl

theorem Graph.wellformed_toJson (g : Graph) : Wellformed g.toJson := by
  have hblocks : Wellformed (.array (g.blocks.map Block.toJson)) :=
    Json.wellformed_map fun b _ => b.wellformed_toJson
  have hedges : Wellformed (.array (g.edges.map Edge.toJson)) := Json.wellformed_map fun e _ => e.wellformed_toJson
  rw [toJson_eq]
  exact Json.wellformed_record _ (by simp [hblocks, hedges])

theorem Graph.ofJson?_toJson {g : Graph} (h : g.Numbered) : ofJson? g.toJson = some g := by
  have hblocks : arrayOf? Block.ofJson? (.array (g.blocks.map Block.toJson)) = some g.blocks :=
    Json.arrayOf?_map fun b hb => Block.ofJson?_toJson (h.blocks b hb)
  have hedges : arrayOf? Edge.ofJson? (.array (g.edges.map Edge.toJson)) = some g.edges :=
    Json.arrayOf?_map fun e he => Edge.ofJson?_toJson (h.edges e he)
  rw [ofJson?, toJson_eq, Json.fields?_record (by decide) rfl]
  simp [required?, hblocks, hedges]

/-! ### Functions -/

theorem Parameter.toJson_eq (p : Parameter) :
    p.toJson = Json.record ["name", "type"] [ofString p.name, p.type.toJson] := rfl

theorem Parameter.wellformed_toJson (p : Parameter) : Wellformed p.toJson := by
  rw [toJson_eq]
  exact Json.wellformed_record _ (by simp [DataType.toJson, Wellformed.string])

theorem Parameter.ofJson?_toJson (p : Parameter) : ofJson? p.toJson = some p := by
  rw [ofJson?, toJson_eq, Json.fields?_record (by decide) rfl]
  simp [required?, DataType.ofJson?_toJson, Json.text?_ofString]

theorem Function.toJson_eq (f : Function) :
    f.toJson = Json.record ["name", "parameters", "return_type", "body", "return_variable"]
      [ofString f.name, .array (f.parameters.map Parameter.toJson), f.returnType.toJson, f.body.toJson,
        nullableJson ofString f.returnVariable] := rfl

theorem Function.wellformed_toJson (f : Function) : Wellformed f.toJson := by
  have hparameters : Wellformed (.array (f.parameters.map Parameter.toJson)) :=
    Json.wellformed_map fun p _ => p.wellformed_toJson
  have hvariable : Wellformed (nullableJson ofString f.returnVariable) :=
    Json.wellformed_nullableJson .string f.returnVariable
  rw [toJson_eq]
  exact Json.wellformed_record _
    (by simp [Wellformed.string, DataType.toJson, hparameters, f.body.wellformed_toJson, hvariable])

theorem Function.ofJson?_toJson {f : Function} (h : f.body.Numbered) : ofJson? f.toJson = some f := by
  have hparameters : arrayOf? Parameter.ofJson? (.array (f.parameters.map Parameter.toJson)) = some f.parameters :=
    Json.arrayOf?_map fun p _ => p.ofJson?_toJson
  rw [ofJson?, toJson_eq, Json.fields?_record (by decide) rfl]
  simp [required?, defaulted?, hparameters, DataType.ofJson?_toJson, Graph.ofJson?_toJson h,
    Json.nullable?_text, Json.text?_ofString]

/-! ### Programs -/

/-- A program that documents carry: every number in its charts is below 2^64, and its table of functions was made
by inserting functions one after the other. -/
structure Program.Exchangeable (p : Program) : Prop where
  main : p.main.Numbered
  bodies : ∀ f ∈ p.functions.toList, f.body.Numbered
  table : ∃ functions, p.functions = FunctionTable.ofList functions

theorem Program.toJson_eq (p : Program) :
    p.toJson = Json.record ["main", "functions"]
      [p.main.toJson, .array (p.functions.toList.map Function.toJson)] := rfl

theorem Program.wellformed_toJson (p : Program) : Wellformed p.toJson := by
  have hfunctions : Wellformed (.array (p.functions.toList.map Function.toJson)) :=
    Json.wellformed_map fun f _ => f.wellformed_toJson
  rw [toJson_eq]
  exact Json.wellformed_record _ (by simp [p.main.wellformed_toJson, hfunctions])

theorem Program.ofJson?_toJson {p : Program} (h : p.Exchangeable) : ofJson? p.toJson = some p := by
  have hfunctions : arrayOf? Function.ofJson? (.array (p.functions.toList.map Function.toJson)) =
      some p.functions.toList :=
    Json.arrayOf?_map fun f hf => Function.ofJson?_toJson (h.bodies f hf)
  have htable : FunctionTable.ofList p.functions.toList = p.functions := by
    obtain ⟨functions, hfunctions⟩ := h.table
    rw [hfunctions]
    exact (FunctionTable.indexed_ofList functions).ofList_toList
  rw [ofJson?, toJson_eq, Json.fields?_record (by decide) rfl]
  simp [required?, defaulted?, Graph.ofJson?_toJson h.main, hfunctions, htable]

/-- The text that is written for a program is the text of its document, whatever stands in the program. -/
theorem Program.document_of_write (p : Program) : Json.read? p.write.toList = some p.toJson := by
  rw [write, String.toList_ofList, Json.read?_pretty p.wellformed_toJson]

/-- **A program is read from the text that is written for it**, with the same charts, and with the same functions
at the same places of its table. -/
theorem Program.read_write {p : Program} (h : p.Exchangeable) : Program.read? p.write = some p := by
  rw [read?, document_of_write]
  exact ofJson?_toJson h

/-- A program whose texts need escapes, with the greatest number that a block can have, and with a table in which
a function was replaced. -/
def Program.escaping : Program where
  main :=
    { blocks := [⟨18446744073709551615, .start, "\"go\" \\ \n\t\x01 𝄞"⟩, ⟨0, .conditional, "x < 1"⟩, ⟨1, .finish, ""⟩]
      edges := [⟨18446744073709551615, 0, some "\x08", none⟩, ⟨0, 1, none, some .whenFalse⟩] }
  functions := .ofList
    [{ name := "f", returnType := .void }, { name := "\"", returnType := .string },
      { name := "f", parameters := [⟨"x", .int⟩], returnType := .double, returnVariable := some "\\y"
        body := { blocks := [⟨7, .start, ""⟩, ⟨8, .finish, "/"⟩], edges := [⟨7, 8, some "", some .whenTrue⟩] } }]

theorem Program.read_write_escaping :
    escaping.Exchangeable ∧ read? escaping.write = some escaping := by
  have h : escaping.Exchangeable :=
    { main := by decide
      bodies := by decide
      table := ⟨_, rfl⟩ }
  exact ⟨h, read_write h⟩

end Flowchart
