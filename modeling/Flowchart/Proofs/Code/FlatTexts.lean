import Flowchart.Code.Program
import Flowchart.Proofs.Code.Following
import Flowchart.Proofs.Condition.QuotedWords
import Flowchart.Proofs.Label.CallStatements

/-!
# What is written on the lines of code

The texts in the code of a chart come from the labels of its blocks.  Readers take them out, and conditions are
respelled with signs of their own; neither makes a brace or a line end.  So where no label has one, every statement is
one line without braces, and it does not begin with a space, since labels are read without their margins.

* `Text.Flat`, `Text.Flush` — texts on one line without braces, and texts that do not begin with a space.
* `flat_of_passage`, `flat_condition` — what readers take out of a flat text is flat, and so is a condition in C.
* `Instruction.Writable` — instructions whose texts are flat, with names where names have to stand;
  **`Block.writable`** says that the instruction on a flat label is one.
* `Statement.Legible`, `Recovery.legible_statements` — statements on one line, and those for such an instruction.
* `Code.Flat` — code with such statements, and with flat conditions;
  **`Recovery.Followed.flat`** says that this is all that comes out of a chart with flat labels.
-/

namespace Flowchart

/-! ### Flat texts -/

namespace Text

/-- A text on one line, without braces. -/
def Flat (t : Text) : Prop := ∀ c ∈ t, c ≠ '\x7b' ∧ c ≠ '\x7d' ∧ c ≠ '\n'

instance (t : Text) : Decidable (Flat t) :=
  List.decidableBAll (fun c => c ≠ '\x7b' ∧ c ≠ '\x7d' ∧ c ≠ '\n') t

/-- A text that does not begin with a space. -/
def Flush (t : Text) : Prop := ∀ c ∈ t.head?, c ≠ ' '

instance (t : Text) : Decidable (Flush t) :=
  decidable_of_iff (t.head? ≠ some ' ') ⟨fun h _ hc heq => h (heq ▸ hc), fun h hc => h ' ' hc rfl⟩

variable {t u : Text}

theorem Flat.mono (h : Flat t) (hsub : u ⊆ t) : Flat u := fun c hc => h c (hsub hc)

theorem flat_nil : Flat [] := fun _ hc => absurd hc List.not_mem_nil

theorem flat_append : Flat (t ++ u) ↔ Flat t ∧ Flat u := List.forall_mem_append

theorem Flat.append (ht : Flat t) (hu : Flat u) : Flat (t ++ u) := flat_append.mpr ⟨ht, hu⟩

theorem flat_of_passage (h : Passage u t) (ht : Flat t) : Flat u := by
  obtain ⟨before, after, rfl, -⟩ := h
  exact (flat_append.mp (flat_append.mp ht).1).2

/-- Names are flat. -/
theorem flat_of_isName (h : isName t = true) : Flat t := by
  intro c hc
  have hpart := isNamePart_of_mem_name h hc
  refine ⟨?_, ?_, ?_⟩ <;> rintro rfl <;> exact absurd hpart (by decide)

theorem flush_cons {c : Char} (h : c ≠ ' ') (t : Text) : Flush (c :: t) := by
  rintro d ⟨⟩
  exact h

/-- Names do not begin with a space. -/
theorem flush_of_isName (h : isName t = true) (u : Text) : Flush (t ++ u) := by
  cases t with
  | nil => cases h
  | cons d t =>
    rintro c ⟨⟩ rfl
    exact absurd (isNamePart_of_mem_name h List.mem_cons_self) (by decide)

/-- A text without margins does not begin with a space. -/
theorem flush_trim (t : Text) : Flush (trim t) := by
  rw [← trimStart_trimEnd]
  rintro c hc rfl
  exact absurd (head?_trimStart _ _ hc) (by decide)

/-- Behind a text that does not begin with a space anything may follow. -/
theorem Flush.append (ht : Flush t) (hne : t ≠ []) (u : Text) : Flush (t ++ u) := by
  intro c hc
  rw [List.head?_append_of_ne_nil _ hne] at hc
  exact ht c hc

theorem flat_intercalate {separator : Text} (hseparator : Flat separator) {pieces : List Text}
    (h : ∀ piece ∈ pieces, Flat piece) : Flat (separator.intercalate pieces) := by
  induction pieces with
  | nil => exact flat_nil
  | cons first rest ih =>
    obtain ⟨hfirst, hrest⟩ := List.forall_mem_cons.mp h
    cases rest with
    | nil =>
      rw [List.intercalate_singleton]
      exact hfirst
    | cons second rest =>
      rw [List.intercalate_cons_cons]
      exact (hfirst.append hseparator).append (ih hrest)

/-- A piece stands in what is put together from it and others. -/
theorem subset_intercalate (separator : Text) {piece : Text} {pieces : List Text} (h : piece ∈ pieces) :
    piece ⊆ separator.intercalate pieces := by
  induction pieces with
  | nil => cases h
  | cons first rest ih =>
    cases rest with
    | nil =>
      rw [List.mem_singleton.mp h, List.intercalate_singleton]
      exact List.Subset.refl _
    | cons second rest =>
      rw [List.intercalate_cons_cons]
      rcases List.mem_cons.mp h with rfl | h
      · exact fun c hc => List.mem_append_left _ (List.mem_append_left _ hc)
      · exact fun c hc => List.mem_append_right _ (ih h hc)

theorem subset_of_mem_splitOn {separator : Char} (h : u ∈ t.splitOn separator) : u ⊆ t := by
  have hsub := subset_intercalate [separator] h
  rwa [List.intercalate_splitOn] at hsub

end Text

/-- **A condition in C is flat** if it is flat as it stands on a block. -/
theorem flat_condition {t : Text} (h : t.Flat) : (Code.condition t).Flat := by
  have hquestion := Text.flat_of_passage (passage_question t) h
  intro c hc
  rcases Code.mem_spellRuns (Code.mem_spellSigns hc) with hc | rfl | rfl | rfl
  · rw [Text.flatten_runs] at hc
    exact hquestion c hc
  all_goals decide

/-! ### Instructions -/

/-- The text of an instruction is flat: names stand where names have to, and an expression that may be a statement by
itself does not begin with a space. -/
def Instruction.Writable : Instruction → Prop
  | .start | .finish | .merge => True
  | .assign target expression =>
    (∀ name ∈ target, Text.isName name.toList = true) ∧ Text.Flat expression ∧ Text.Flush expression
  | .input names => ∀ name ∈ names, Text.Flat name.toList
  | .output expression => Text.Flat expression
  | .choose condition | .whileLoop condition | .doWhile condition => Text.Flat condition
  | .forLoop init condition increment => Text.Flat init ∧ Text.Flat condition ∧ Text.Flat increment
  | .call target function arguments =>
    (∀ name ∈ target, Text.isName name.toList = true) ∧ Text.isName function.toList = true ∧
      ∀ argument ∈ arguments, Text.Flat argument

namespace Instruction

variable {t : Text} {i : Instruction}

theorem writable_of_readAssignment (ht : t.Flat) (h : readAssignment t = .ok i) : i.Writable := by
  have hstatement : (withoutTerminator t).Flat := Text.flat_of_passage (passage_withoutTerminator t) ht
  unfold readAssignment at h
  dsimp only at h
  split at h
  · cases h
  · split at h
    · next a ha =>
      cases h
      obtain ⟨-, -, -, -, -, hname, -⟩ := eq_of_assignment ha
      refine ⟨?_, Text.flat_of_passage (passage_of_assignment ha) hstatement, ?_⟩
      · rintro name ⟨⟩
        rwa [String.toList_ofList]
      · rw [← trim_expression ha]
        exact Text.flush_trim _
    · cases h
      refine ⟨by rintro name ⟨⟩, hstatement, ?_⟩
      rw [← trim_withoutTerminator]
      exact Text.flush_trim _

/-- A call is an assignment whose expression has the form of a call. -/
theorem writable_of_readCall (ht : t.Flat) (h : readCall t = .ok i) : i.Writable := by
  obtain ⟨target, text, c, -, hcall, rfl, hassignment⟩ := readAssignment_of_readCall h
  obtain ⟨htarget, htext, -⟩ := writable_of_readAssignment ht hassignment
  refine ⟨htarget, ?_, fun argument hargument =>
    Text.flat_of_passage (Literal.passage_of_argument hcall hargument) htext⟩
  rw [String.toList_ofList]
  exact (Literal.eq_of_call hcall).1

theorem writable_of_readInput (ht : t.Flat) (h : readInput t = .ok i) : i.Writable := by
  unfold readInput at h
  dsimp only at h
  split at h
  · cases h
  · cases h
    intro name hname
    obtain ⟨trimmed, htrimmed, rfl⟩ := List.mem_map.mp hname
    obtain ⟨part, hpart, rfl⟩ := List.mem_map.mp (List.mem_filter.mp htrimmed).1
    rw [String.toList_ofList]
    have hlist := Text.flat_of_passage (passage_withoutKeyword "input".toList t) ht
    exact Text.flat_of_passage (Text.passage_trim part) (hlist.mono (Text.subset_of_mem_splitOn hpart))

theorem writable_of_readOutput (ht : t.Flat) (h : readOutput t = .ok i) : i.Writable := by
  unfold readOutput at h
  dsimp only at h
  split at h
  · cases h
  · cases h
    exact Text.flat_of_passage ((passage_withoutTerminator _).trans (passage_withoutKeyword _ t)) ht

theorem writable_of_readCondition {form : Text → Instruction} (h : readCondition form t = .ok i)
    (hform : (form t).Writable) : i.Writable := by
  unfold readCondition at h
  split at h
  · cases h
  · cases h
    exact hform

theorem writable_of_readForLoop (ht : t.Flat) (h : readForLoop t = .ok i) : i.Writable := by
  unfold readForLoop at h
  split at h
  · next init condition increment hsplit =>
    cases h
    have hpart : ∀ part ∈ [init, condition, increment], (Text.trim part).Flat := by
      intro part hpart
      rw [← hsplit] at hpart
      exact Text.flat_of_passage ((Text.passage_trim part).trans
        ((Text.passage_of_mem_splitTop (by decide) hpart).trans (passage_loopHeader t))) ht
    exact ⟨hpart init (by simp), hpart condition (by simp), hpart increment (by simp)⟩
  · cases h

end Instruction

/-- **The instruction on a flat label can be written on lines.** -/
theorem Block.writable {b : Block} {i : Instruction} (hb : Text.Flat b.label.toList) (hi : b.instruction = .ok i) :
    i.Writable := by
  have hread := Block.instruction_eq_ok_iff.mp hi
  have ht : (Text.trim b.label.toList).Flat := Text.flat_of_passage (Text.passage_trim _) hb
  unfold Instruction.ofLabel at hread
  dsimp only at hread
  split at hread
  · cases hread; trivial
  · cases hread; trivial
  · cases hread; trivial
  · exact Instruction.writable_of_readAssignment ht hread
  · exact Instruction.writable_of_readInput ht hread
  · exact Instruction.writable_of_readOutput ht hread
  · exact Instruction.writable_of_readCondition hread ht
  · exact Instruction.writable_of_readCondition hread ht
  · exact Instruction.writable_of_readCondition hread ht
  · exact Instruction.writable_of_readForLoop ht hread
  · exact Instruction.writable_of_readCall ht hread

/-! ### Statements -/

/-- A statement that is written on one line, without braces and without a margin. -/
structure Statement.Legible (s : Statement) : Prop where
  flat : s.text.Flat
  flush : s.text.Flush

namespace Statement

variable {target code : Text} {type : DataType}

/-- A call of `printf` is legible if what stands in it is flat. -/
theorem flat_printf {format further : Text} (hformat : format.Flat) (hfurther : further.Flat) :
    (printf format further).Flat :=
  ((((show Text.Flat "printf(\"".toList by decide).append hformat).append
    (show Text.Flat "\\n\"".toList by decide)).append hfurther).append (show Text.Flat ");".toList by decide)

/-- What begins with a fixed text does not begin with a space. -/
theorem flush_printf (format further : Text) : (printf format further).Flush := Text.flush_cons (by decide) _

theorem legible_printText (h : code.Flat) : (printText code).Legible where
  flat := flat_printf h Text.flat_nil
  flush := flush_printf _ _

theorem legible_printValue (h : code.Flat) : (printValue type code).Legible where
  flat := flat_printf (by cases type <;> decide) ((show Text.Flat ", ".toList by decide).append h)
  flush := flush_printf _ _

theorem legible_expression (hflat : code.Flat) (hflush : code.Flush) : (expression code).Legible where
  flat := hflat.append (by decide)
  flush := by
    cases code with
    | nil => exact Text.flush_cons (by decide) _
    | cons d code => exact hflush.append (List.cons_ne_nil d code) _

theorem legible_assign (htarget : Text.isName target = true) (h : code.Flat) : (assign target code).Legible where
  flat := (((Text.flat_of_isName htarget).append (by decide)).append h).append (by decide)
  flush := by
    show Text.Flush (target ++ " = ".toList ++ code ++ ";".toList)
    rw [List.append_assoc, List.append_assoc]
    exact Text.flush_of_isName htarget _

theorem legible_copyText (htarget : Text.isName target = true) (h : code.Flat) : (copyText target code).Legible where
  flat := ((((show Text.Flat "strcpy(".toList by decide).append (Text.flat_of_isName htarget)).append
    (by decide)).append h).append (by decide)
  flush := Text.flush_cons (by decide) _

theorem legible_scan (htarget : target.Flat) : (scan type target).Legible where
  flat := by
    cases type
    all_goals exact (Text.Flat.append (by decide) htarget).append (by decide)
  flush := by
    cases type
    all_goals exact Text.flush_cons (by decide) _

theorem legible_remark (h : code.Flat) : (remark code).Legible where
  flat := (show Text.Flat "// Unrecognized block: ".toList by decide).append h
  flush := Text.flush_cons (by decide) _

end Statement

namespace Recovery

variable (r : Recovery)

/-- A value that is assigned or dropped makes a legible statement. -/
theorem legible_valueStatement {target : Option String} {code : Text}
    (htarget : ∀ name ∈ target, Text.isName name.toList = true) (hflat : code.Flat) (hflush : code.Flush) :
    (r.valueStatement target code).Legible := by
  cases target with
  | none => exact Statement.legible_expression hflat hflush
  | some name =>
    have hname := htarget name rfl
    show (r.assignment name code).Legible
    unfold assignment
    split
    · exact Statement.legible_copyText hname hflat
    · exact Statement.legible_assign hname hflat

theorem flat_callCode {function : String} {arguments : List Text} (hfunction : Text.isName function.toList = true)
    (h : ∀ argument ∈ arguments, Text.Flat argument) : (callCode function arguments).Flat :=
  (((Text.flat_of_isName hfunction).append (by decide)).append
    (Text.flat_intercalate (by decide) h)).append (by decide)

theorem flush_callCode {function : String} (arguments : List Text) (hfunction : Text.isName function.toList = true) :
    (callCode function arguments).Flush := by
  unfold callCode
  rw [List.append_assoc, List.append_assoc]
  exact Text.flush_of_isName hfunction _

theorem legible_printStatement {expression : Text} (h : expression.Flat) : (r.printStatement expression).Legible := by
  unfold printStatement
  split
  · next content hquoted =>
    refine Statement.legible_printText (h.mono ?_)
    unfold Literal.quoted? at hquoted
    split at hquoted
    · next rest =>
      split at hquoted
      · cases hquoted
        exact List.subset_cons_of_subset _ (List.dropLast_subset rest)
      · cases hquoted
    · cases hquoted
  · exact Statement.legible_printValue h

/-- **The statements for an instruction are legible.** -/
theorem legible_statements {i : Instruction} (hi : i.Writable) : ∀ s ∈ r.statements i, s.Legible := by
  intro s hs
  cases i with
  | assign target expression =>
    rw [List.mem_singleton.mp hs]
    exact r.legible_valueStatement hi.1 hi.2.1 hi.2.2
  | input names =>
    obtain ⟨name, hname, rfl⟩ := List.mem_map.mp hs
    exact Statement.legible_scan (hi name hname)
  | output expression =>
    rw [List.mem_singleton.mp hs]
    exact r.legible_printStatement hi
  | call target function arguments =>
    rw [List.mem_singleton.mp hs]
    exact r.legible_valueStatement hi.1 (flat_callCode hi.2.1 hi.2.2) (flush_callCode arguments hi.2.1)
  | start | finish | merge | choose | whileLoop | forLoop | doWhile => cases hs

theorem flat_whileHeader {condition : Text} (h : condition.Flat) : (whileHeader condition).Flat :=
  ((show Text.Flat "while (".toList by decide).append (flat_condition h)).append (by decide)

theorem flat_forHeader {init condition increment : Text} (hinit : init.Flat) (hcondition : condition.Flat)
    (hincrement : increment.Flat) : (forHeader init condition increment).Flat :=
  ((((((show Text.Flat "for (".toList by decide).append hinit).append (by decide)).append
    (flat_condition hcondition)).append (by decide)).append hincrement).append (by decide)

end Recovery

/-! ### The code for a chart -/

/-- Every label of a chart is on one line and has no braces. -/
def Graph.Flat (g : Graph) : Prop := ∀ b ∈ g.blocks, Text.Flat b.label.toList

instance (g : Graph) : Decidable g.Flat := inferInstanceAs (Decidable (∀ b ∈ g.blocks, Text.Flat b.label.toList))

/-- The statements in code are legible, and its conditions are flat. -/
def Code.Flat : Code → Prop
  | done => True
  | plain _ statements next => (∀ s ∈ statements, s.Legible) ∧ next.Flat
  | ifThen _ condition body next => Text.Flat condition ∧ body.Flat ∧ next.Flat
  | ifElse _ condition body other next => Text.Flat condition ∧ body.Flat ∧ other.Flat ∧ next.Flat
  | loop _ header body next => (Text.Flat header ∧ Text.Flush header ∧ header ≠ []) ∧ body.Flat ∧ next.Flat
  | doLoop _ _ condition body next => Text.Flat condition ∧ body.Flat ∧ next.Flat
  | emptyDo _ condition next => Text.Flat condition ∧ next.Flat

namespace Recovery

variable {r : Recovery}

theorem flat_testCondition (hflat : r.graph.Flat) (test : BlockId) : (r.testCondition test).Flat := by
  refine flat_condition ?_
  cases hb : r.graph.block? test with
  | none => exact Text.flat_nil
  | some b => exact Text.flat_of_passage (Text.passage_trim _) (hflat b (Graph.mem_of_block? hb).1)

/-- What is read on a block of a chart with flat labels can be written on lines. -/
theorem Covers.writable {walls : List BlockId} {id : BlockId} {p : Progress} {b : Block} {i : Instruction}
    (h : r.Covers walls id p b) (hflat : r.graph.Flat) (hi : b.instruction = .ok i) : i.Writable :=
  Block.writable (hflat b (Graph.mem_of_block? h.found).1) hi

/-- **All code for a chart with flat labels is flat.** -/
theorem Followed.flat {walls : List BlockId} {start : Option BlockId} {p q : Progress} {c : Code}
    (h : r.Followed walls start p c q) (hflat : r.graph.Flat) : c.Flat := by
  induction h with
  | rests | misses => trivial
  | opens _ _ _ _ ihb ih => exact ⟨flat_testCondition hflat _, ihb, ih⟩
  | @remark _ _ _ _ b _ _ h _ _ ih =>
    have hlabel := Text.flat_of_passage (Text.passage_trim _) (hflat b (Graph.mem_of_block? h.found).1)
    refine ⟨fun s hs => ?_, ih⟩
    rw [List.mem_singleton.mp hs]
    exact Statement.legible_remark hlabel
  | finish => exact ⟨fun s hs => absurd hs List.not_mem_nil, trivial⟩
  | plain h hi _ ih => exact ⟨r.legible_statements (h.writable hflat hi), ih⟩
  | ifThen h hi _ _ _ ihb ih => exact ⟨flat_condition (h.writable hflat hi), ihb, ih⟩
  | ifElse h hi _ _ _ _ ihb iho ih => exact ⟨flat_condition (h.writable hflat hi), ihb, iho, ih⟩
  | whileLoop h hi _ _ ihb ih =>
    have hheader := flat_whileHeader (h.writable hflat hi)
    exact ⟨⟨hheader, Text.flush_cons (by decide) _, List.cons_ne_nil _ _⟩, ihb, ih⟩
  | forLoop h hi _ _ ihb ih =>
    obtain ⟨hinit, hcondition, hincrement⟩ := h.writable hflat hi
    have hheader := flat_forHeader hinit hcondition hincrement
    exact ⟨⟨hheader, Text.flush_cons (by decide) _, List.cons_ne_nil _ _⟩, ihb, ih⟩
  | emptyDo h hi _ ih => exact ⟨flat_condition (h.writable hflat hi), ih⟩

end Recovery

/-- The code for a chart with flat labels is flat. -/
theorem Graph.flat_code {g : Graph} (hflat : g.Flat) (functions : FunctionTable) (typing : Typing) :
    ((g.code functions typing).getD .done).Flat := by
  obtain ⟨c, q, hcode, hfollowed⟩ := g.exists_followed functions typing
  rw [hcode]
  exact hfollowed.flat hflat

end Flowchart
