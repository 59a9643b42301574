import Flowchart.Proofs.Code.Indentation

/-!
# Remarks in the code

What cannot be read is not lost: a block with such a label leaves a remark in the code, and so does a function without a
start block or an end block.  A remark is one line, but the label or the name in it is copied as it stands.  Where this
goes on behind a line end, the rest stands on rows of its own, and they are remarks only if they look like some already.

* `Line.rows` — the rows that a line takes up in the file; `Text.IsRemark` — a row that is a remark.
  **`Line.isRemark_rows_iff`** says when a line that begins as a remark is one on all its rows.
* `Origin` — what a line of code is written for: the frame of the file, a function, a variable, a block, or the test at
  the end of a loop.  `Program.origins` — the lines of the code for a program, each with its origin.
* `Origin.Accounts` — how an origin accounts for a line, one rule for each sort of lines;
  **`Program.accounts_of_mem_origins`** says that all lines of a program are accounted for.
* **`Program.code_remarks`** — which rows of the code for a program are written for what cannot be read.
-/

namespace Flowchart

/-! ### Rows -/

namespace Text

/-- On a row there is nothing but a remark, behind the indentation. -/
def IsRemark (row : Text) : Prop := "//".toList <+: row.dropWhile (· == ' ')

instance (row : Text) : Decidable (IsRemark row) := inferInstanceAs (Decidable ("//".toList <+: _))

/-- A row is a remark, or it is not, by what follows its indentation. -/
theorem isRemark_indented {c : Char} (hc : c ≠ ' ') (n : Nat) (t : Text) :
    IsRemark (List.replicate n ' ' ++ c :: t) ↔ "//".toList <+: c :: t := by
  have hdrop : (List.replicate n ' ' ++ c :: t).dropWhile (· == ' ') = c :: t := by
    rw [List.dropWhile_append_of_pos fun d hd => beq_iff_eq.mpr (List.eq_of_mem_replicate hd)]
    exact List.dropWhile_cons_of_neg (by simpa using hc)
  rw [IsRemark, hdrop]

/-- The rows of a text on either side of a line end. -/
theorem splitOn_append_cons (t u : Text) :
    (t ++ '\n' :: u).splitOn '\n' = t.splitOn '\n' ++ u.splitOn '\n' :=
  List.splitOnP_append_cons t u (beq_self_eq_true '\n')

/-- What stands in front of a text, without line ends, stands in front of its first row. -/
theorem splitOn_append {s : Text} (hs : '\n' ∉ s) {t first : Text} {others : List Text}
    (ht : t.splitOn '\n' = first :: others) : (s ++ t).splitOn '\n' = (s ++ first) :: others := by
  induction s with
  | nil => exact ht
  | cons c s ih =>
    rw [List.mem_cons, not_or] at hs
    have hrow := ih hs.2
    unfold List.splitOn at hrow ⊢
    rw [List.cons_append, List.splitOnP_cons_eq_if_modifyHead, if_neg (by simpa using Ne.symm hs.1), hrow]
    rfl

end Text

namespace Line

variable {width : Nat} {l : Line} {opening written : Text}

/-- The rows that a line takes up as it is written. -/
def rows (width : Nat) (l : Line) : List Text := (List.replicate (l.depth * width) ' ' ++ l.text).splitOn '\n'

/-- **The rows of a text that is written line by line** are those of the lines, and an empty one behind the last line
end. -/
theorem splitOn_flatMap_write (width : Nat) (ls : List Line) :
    (ls.flatMap (write width)).splitOn '\n' = ls.flatMap (rows width) ++ [[]] := by
  induction ls with
  | nil => rfl
  | cons l ls ih =>
    rw [List.flatMap_cons, write_eq, Text.splitOn_append_cons, ih, List.flatMap_cons, List.append_assoc]
    rfl

/-- The first row of a line, and what follows it. -/
theorem exists_rows (width : Nat) (hl : l.text = opening ++ written) (hopening : '\n' ∉ opening) :
    ∃ first, l.rows width =
      (List.replicate (l.depth * width) ' ' ++ (opening ++ first)) :: (written.splitOn '\n').tail := by
  obtain ⟨first, others, hwritten⟩ := List.exists_cons_of_ne_nil (List.splitOn_ne_nil '\n' written)
  have hmargin : '\n' ∉ List.replicate (l.depth * width) ' ' := fun h => absurd (List.eq_of_mem_replicate h) (by decide)
  refine ⟨first, ?_⟩
  rw [rows, hl, Text.splitOn_append hmargin (Text.splitOn_append hopening hwritten), hwritten]
  rfl

/-- **A line that begins as a remark is one on all its rows** if each further row of what is written in it looks like a
remark by itself, and not otherwise. -/
theorem isRemark_rows_iff (opening : Text) (hl : l.text = '/' :: '/' :: opening ++ written)
    (hopening : '\n' ∉ opening) :
    (∀ row ∈ l.rows width, Text.IsRemark row) ↔ ∀ row ∈ (written.splitOn '\n').tail, Text.IsRemark row := by
  obtain ⟨first, hrows⟩ := exists_rows width hl (by simpa using hopening)
  have hfirst : Text.IsRemark (List.replicate (l.depth * width) ' ' ++ ('/' :: '/' :: opening ++ first)) :=
    (Text.isRemark_indented (by decide) _ _).mpr (List.prefix_append _ _)
  rw [hrows, List.forall_mem_cons]
  exact and_iff_right hfirst

/-- A line that begins otherwise is no remark. -/
theorem exists_not_isRemark {c : Char} (hl : l.text = [c] ++ written) (hc : c ≠ ' ' ∧ c ≠ '/' ∧ c ≠ '\n') :
    ∃ row ∈ l.rows width, ¬Text.IsRemark row := by
  obtain ⟨first, hrows⟩ := exists_rows width hl (by simpa using hc.2.2.symm)
  refine ⟨_, by rw [hrows]; exact List.mem_cons_self, ?_⟩
  rw [List.singleton_append, Text.isRemark_indented hc.1]
  intro h
  exact hc.2.1 (List.cons_prefix_cons.mp h).1.symm

end Line

/-! ### What lines are written for -/

/-- What a line of code is written for. -/
inductive Origin where
  /-- The file as a whole, and the main chart as one. -/
  | frame
  | function (f : Function)
  /-- A variable of a chart. -/
  | declaration (g : Graph) (name : String)
  /-- A block of a chart, as the code comes to it. -/
  | block (g : Graph) (id : BlockId)
  /-- A block of a chart that tests at the end of a loop with a body. -/
  | test (g : Graph) (id : BlockId)
  deriving DecidableEq

/-- The lines of code, each with its origin: the block for which the piece stands that it belongs to. -/
def Code.origins (g : Graph) : Nat → Code → List (Origin × Line)
  | _, done => []
  | depth, plain id statements next =>
    statements.map (fun s => (.block g id, ⟨depth, s.text⟩)) ++ next.origins g depth
  | depth, ifThen id condition body next =>
    (.block g id, ifLine depth condition) :: body.origins g (depth + 1)
      ++ (.block g id, closeLine depth) :: next.origins g depth
  | depth, ifElse id condition body other next =>
    (.block g id, ifLine depth condition) :: body.origins g (depth + 1)
      ++ (.block g id, ⟨depth, "\x7d else \x7b".toList⟩) :: other.origins g (depth + 1)
      ++ (.block g id, closeLine depth) :: next.origins g depth
  | depth, loop id header body next =>
    (.block g id, ⟨depth, header ++ " \x7b".toList⟩) :: body.origins g (depth + 1)
      ++ (.block g id, closeLine depth) :: next.origins g depth
  | depth, doLoop _ test condition body next =>
    (.test g test, doLine depth) :: body.origins g (depth + 1)
      ++ (.test g test, whileLine depth condition) :: next.origins g depth
  | depth, emptyDo id condition next =>
    (.block g id, doLine depth) :: (.block g id, whileLine depth condition) :: next.origins g depth

/-- The lines of the code for a chart with their origins. -/
def Graph.origins (g : Graph) (style : CodeStyle) (functions : FunctionTable) (parameters : List Parameter) :
    List (Origin × Line) :=
  let typing := g.typing functions parameters
  typing.locals.map (fun p => (.declaration g p.1, ⟨1, style.declaration p.1 p.2⟩))
    ++ ((g.code functions typing).getD .done).origins g 1

/-- The lines of the code for a function with their origins. -/
def Function.origins (f : Function) (style : CodeStyle) (functions : FunctionTable) : List (Origin × Line) :=
  if f.isComplete then
    (.function f, ⟨0, f.signature ++ " \x7b".toList⟩) :: f.body.origins style functions f.parameters
      ++ f.returnLine.map (Prod.mk (.function f)) ++ [(.function f, Code.closeLine 0)]
  else (f.code style functions).map (Prod.mk (.function f))

namespace Program

variable {p : Program} {style : CodeStyle} {o : Origin} {l : Line}

/-- The prototypes with their origins. -/
def prototypeOrigins (p : Program) : List (Origin × Line) :=
  let complete := p.functions.toList.filter Function.isComplete
  complete.map (fun f => (.function f, ⟨0, f.signature ++ ";".toList⟩))
    ++ if complete.isEmpty then [] else [(.frame, emptyLine)]

/-- The lines of the functions with their origins; the empty line behind a function is written for it, too. -/
def functionOrigins (p : Program) (style : CodeStyle) : List (Origin × Line) :=
  p.functions.toList.flatMap fun f => f.origins style p.functions ++ [(.function f, emptyLine)]

/-- The lines of the main chart with their origins. -/
def mainOrigins (p : Program) (style : CodeStyle) : List (Origin × Line) :=
  (.frame, ⟨0, "int main() \x7b".toList⟩) :: p.main.origins style p.functions []
    ++ [(.frame, ⟨1, "return 0;".toList⟩), (.frame, Code.closeLine 0)]

/-- The lines of the code for a program, each with its origin. -/
def origins (p : Program) (style : CodeStyle) : List (Origin × Line) :=
  if p.main.start?.isSome && p.main.finish?.isSome then
    (flushLines ["#include <stdio.h>", "#include <stdlib.h>", "#include <string.h>", ""]).map (Prod.mk .frame)
      ++ (if style.prototypes then p.prototypeOrigins else [])
      ++ p.functionOrigins style ++ p.mainOrigins style
  else (p.codeLines style).map (Prod.mk .frame)

end Program

/-! ### All lines have an origin -/

theorem map_snd_origin (o : Origin) (ls : List Line) : (ls.map (Prod.mk o)).map Prod.snd = ls := by
  rw [List.map_map]
  exact List.map_id ls

theorem Code.map_snd_origins (g : Graph) (c : Code) (depth : Nat) :
    (c.origins g depth).map Prod.snd = c.lines depth := by
  induction c generalizing depth with
  | done => rfl
  | plain id statements next ih =>
    rw [origins, List.map_append, List.map_map, ih]
    rfl
  | ifThen | ifElse | loop | doLoop | emptyDo => simp only [origins, lines, List.map_append, List.map_cons, *]

theorem Graph.map_snd_origins (g : Graph) (style : CodeStyle) (functions : FunctionTable)
    (parameters : List Parameter) :
    (g.origins style functions parameters).map Prod.snd = g.body style functions parameters := by
  unfold origins
  rw [List.map_append, List.map_map, Code.map_snd_origins]
  rfl

theorem Function.map_snd_origins (f : Function) (style : CodeStyle) (functions : FunctionTable) :
    (f.origins style functions).map Prod.snd = f.code style functions := by
  unfold origins
  split
  · next hcomplete =>
    rw [code, if_pos hcomplete, List.map_append, List.map_append, map_snd_origin, List.map_cons,
      Graph.map_snd_origins]
    rfl
  · exact map_snd_origin _ _

namespace Program

theorem map_snd_prototypeOrigins (p : Program) : p.prototypeOrigins.map Prod.snd = p.prototypes := by
  unfold prototypeOrigins prototypes
  dsimp only
  rw [List.map_append, List.map_map]
  split
  · rfl
  · rfl

theorem map_snd_functionOrigins (p : Program) (style : CodeStyle) :
    (p.functionOrigins style).map Prod.snd = p.functionLines style := by
  unfold functionOrigins functionLines
  rw [List.map_flatMap]
  congr 1
  funext f
  rw [List.map_append, Function.map_snd_origins]
  rfl

/-- **The lines with an origin are the lines of the code**, in this order. -/
theorem map_snd_origins (p : Program) (style : CodeStyle) : (p.origins style).map Prod.snd = p.codeLines style := by
  unfold origins
  split
  · next hcomplete =>
    have hmain : (p.mainOrigins style).map Prod.snd = p.mainLines style := by
      rw [mainOrigins, List.map_append, List.map_cons, Graph.map_snd_origins]
      rfl
    have hprototypes : (if style.prototypes then p.prototypeOrigins else []).map Prod.snd =
        if style.prototypes then p.prototypes else [] := by
      split
      · exact p.map_snd_prototypeOrigins
      · rfl
    rw [codeLines, if_pos hcomplete, List.map_append, List.map_append, List.map_append, map_snd_origin, hprototypes,
      map_snd_functionOrigins, hmain]
  · exact map_snd_origin _ _

end Program

/-! ### How origins account for lines -/

/-- How an origin accounts for a line. -/
inductive Origin.Accounts : Origin → Line → Prop where
  | frame {l : Line} : Accounts .frame l
  | complete {f : Function} {l : Line} (hf : f.isComplete = true) : Accounts (.function f) l
  | incomplete {f : Function} (hf : f.isComplete = false) :
      Accounts (.function f)
        ⟨0, "// Incomplete function '".toList ++ f.name.toList ++ "': missing Start or End block".toList⟩
  | behind {f : Function} : Accounts (.function f) emptyLine
  /-- A variable is declared on account of a block that can be read. -/
  | declaration {g : Graph} {id : BlockId} {b : Block} {i : Instruction} {name : String} {l : Line}
      (hb : g.block? id = some b) (hi : b.instruction = .ok i) (hname : name ∈ i.noted) :
      Accounts (.declaration g name) l
  | read {g : Graph} {id : BlockId} {b : Block} {i : Instruction} {l : Line} (hb : g.block? id = some b)
      (hi : b.instruction = .ok i) : Accounts (.block g id) l
  | unread {g : Graph} {id : BlockId} {b : Block} {fault : Fault} {depth : Nat} (hb : g.block? id = some b)
      (hi : b.instruction = .error fault) :
      Accounts (.block g id) ⟨depth, (Statement.remark (Text.trim b.label.toList)).text⟩
  | opening {g : Graph} {entry test : BlockId} {depth : Nat} (hloop : (entry, test) ∈ g.doLoops) :
      Accounts (.test g test) (Code.doLine depth)
  | closing {g : Graph} {entry test : BlockId} {depth : Nat} {condition : Text} (hloop : (entry, test) ∈ g.doLoops) :
      Accounts (.test g test) (Code.whileLine depth condition)

/-- Lines that one origin accounts for. -/
theorem accounts_lines {o : Origin} (ls : List Line) (h : ∀ l ∈ ls, o.Accounts l) :
    ∀ a ∈ ls.map (Prod.mk o), Origin.Accounts a.1 a.2 := by
  intro a ha
  obtain ⟨l, hl, rfl⟩ := List.mem_map.mp ha
  exact h l hl

/-- What is written between two lines, and behind them. -/
theorem accounts_enclosed {o o' : Origin} {first last : Line} {inside after : List (Origin × Line)}
    (hfirst : o.Accounts first) (hinside : ∀ a ∈ inside, a.1.Accounts a.2) (hlast : o'.Accounts last)
    (hafter : ∀ a ∈ after, a.1.Accounts a.2) :
    ∀ a ∈ (o, first) :: inside ++ (o', last) :: after, a.1.Accounts a.2 :=
  List.forall_mem_append.mpr
    ⟨List.forall_mem_cons.mpr ⟨hfirst, hinside⟩, List.forall_mem_cons.mpr ⟨hlast, hafter⟩⟩

/-- **All lines of code are accounted for**, as it comes out. -/
theorem Recovery.Followed.accounts {r : Recovery} {walls : List BlockId} {start : Option BlockId} {p q : Progress}
    {c : Code} (h : r.Followed walls start p c q) (hloops : r.doLoops = r.graph.doLoops) (depth : Nat) :
    ∀ a ∈ c.origins r.graph depth, a.1.Accounts a.2 := by
  induction h generalizing depth with
  | rests | misses | finish => exact fun _ ha => absurd ha List.not_mem_nil
  | opens _ htest _ _ ihb ih =>
    have hloop := (mem_of_testToOpen? htest).2
    rw [hloops] at hloop
    exact accounts_enclosed (.opening hloop) (ihb (depth + 1)) (.closing hloop) (ih depth)
  | remark h hi _ ih => exact List.forall_mem_cons.mpr ⟨.unread h.found hi, ih depth⟩
  | plain h hi _ ih =>
    refine List.forall_mem_append.mpr ⟨fun a ha => ?_, ih depth⟩
    obtain ⟨s, -, rfl⟩ := List.mem_map.mp ha
    exact .read h.found hi
  | ifThen h hi _ _ _ ihb ih =>
    exact accounts_enclosed (.read h.found hi) (ihb (depth + 1)) (.read h.found hi) (ih depth)
  | ifElse h hi _ _ _ _ ihb iho ih =>
    exact List.forall_mem_append.mpr
      ⟨accounts_enclosed (.read h.found hi) (ihb (depth + 1)) (.read h.found hi) (iho (depth + 1)),
        List.forall_mem_cons.mpr ⟨.read h.found hi, ih depth⟩⟩
  | whileLoop h hi _ _ ihb ih | forLoop h hi _ _ ihb ih =>
    exact accounts_enclosed (.read h.found hi) (ihb (depth + 1)) (.read h.found hi) (ih depth)
  | emptyDo h hi _ ih =>
    exact List.forall_mem_cons.mpr ⟨.read h.found hi, List.forall_mem_cons.mpr ⟨.read h.found hi, ih depth⟩⟩

/-- The lines of the code for a chart are accounted for. -/
theorem Graph.accounts_of_mem_origins (g : Graph) (style : CodeStyle) (functions : FunctionTable)
    (parameters : List Parameter) : ∀ a ∈ g.origins style functions parameters, a.1.Accounts a.2 := by
  obtain ⟨c, q, hcode, hfollowed⟩ := g.exists_followed functions (g.typing functions parameters)
  unfold origins
  dsimp only
  rw [hcode]
  refine List.forall_mem_append.mpr ⟨fun a ha => ?_, hfollowed.accounts rfl 1⟩
  obtain ⟨pair, hpair, rfl⟩ := List.mem_map.mp ha
  obtain ⟨-, -, id, -, hnoted⟩ := (g.mem_locals_iff functions parameters pair.1).mp (List.mem_map_of_mem hpair)
  unfold Graph.assignedAt at hnoted
  split at hnoted
  · next i hi =>
    obtain ⟨b, hb, hi⟩ := Option.map_eq_some_iff.mp hi
    exact .declaration hb hi hnoted
  · cases hnoted

/-- The lines of the code for a function are accounted for. -/
theorem Function.accounts_of_mem_origins (f : Function) (style : CodeStyle) (functions : FunctionTable) :
    ∀ a ∈ f.origins style functions, a.1.Accounts a.2 := by
  unfold origins
  split
  · next hcomplete =>
    have hbody := f.body.accounts_of_mem_origins style functions f.parameters
    have hresult := accounts_lines f.returnLine fun _ _ => .complete hcomplete
    rw [List.append_assoc]
    exact List.forall_mem_append.mpr ⟨List.forall_mem_cons.mpr ⟨.complete hcomplete, hbody⟩,
      List.forall_mem_append.mpr ⟨hresult, accounts_lines [Code.closeLine 0] fun _ _ => .complete hcomplete⟩⟩
  · next hincomplete =>
    refine accounts_lines _ fun l hl => ?_
    rw [code, if_neg hincomplete] at hl
    rw [List.mem_singleton.mp hl]
    exact .incomplete (Bool.eq_false_iff.mpr hincomplete)

/-- **All lines of the code for a program are accounted for.** -/
theorem Program.accounts_of_mem_origins (p : Program) (style : CodeStyle) :
    ∀ a ∈ p.origins style, a.1.Accounts a.2 := by
  have hframe : ∀ ls : List Line, ∀ a ∈ ls.map (Prod.mk .frame), Origin.Accounts a.1 a.2 :=
    fun ls => accounts_lines ls fun _ _ => .frame
  have hprototypes : ∀ a ∈ p.prototypeOrigins, a.1.Accounts a.2 := by
    refine List.forall_mem_append.mpr ⟨fun a ha => ?_, fun a ha => ?_⟩
    · obtain ⟨f, hf, rfl⟩ := List.mem_map.mp ha
      exact .complete (List.mem_filter.mp hf).2
    · split at ha
      · cases ha
      · exact hframe [emptyLine] a ha
  have hfunctions : ∀ a ∈ p.functionOrigins style, a.1.Accounts a.2 := by
    intro a ha
    obtain ⟨f, -, ha⟩ := List.mem_flatMap.mp ha
    rcases List.mem_append.mp ha with ha | ha
    · exact f.accounts_of_mem_origins style p.functions a ha
    · rw [List.mem_singleton.mp ha]
      exact .behind
  have hmain : ∀ a ∈ p.mainOrigins style, a.1.Accounts a.2 :=
    List.forall_mem_append.mpr ⟨List.forall_mem_cons.mpr
      ⟨.frame, p.main.accounts_of_mem_origins style p.functions []⟩, hframe [_, _]⟩
  unfold origins
  split
  · refine List.forall_mem_append.mpr ⟨List.forall_mem_append.mpr
      ⟨List.forall_mem_append.mpr ⟨hframe _, fun a ha => ?_⟩, hfunctions⟩, hmain⟩
    split at ha
    · exact hprototypes a ha
    · cases ha
  · exact hframe _

/-! ### The rows of a program -/

namespace Program

/-- **Remarks in the code for a program.**  Its rows are those of lines with their origins.  What is written for a block
that cannot be read is a remark upon it, and for a function without a start block or an end block it is one upon this,
with an empty line behind it.  All rows of such a line are remarks exactly if those on which the label or the name goes
on behind a line end look like remarks by themselves.  No variable is declared on account of what cannot be read.  But a
test at the end of a loop with a body is written as such in any case, and this is no remark even if the test cannot be
read. -/
theorem code_remarks (p : Program) (style : CodeStyle) :
    (p.code style).toList.splitOn '\n' = (p.origins style).flatMap (fun a => a.2.rows style.indentWidth) ++ [[]] ∧
    (∀ g id l b fault, (.block g id, l) ∈ p.origins style → g.block? id = some b → b.instruction = .error fault →
      l.text = (Statement.remark (Text.trim b.label.toList)).text ∧
      ((∀ row ∈ l.rows style.indentWidth, Text.IsRemark row) ↔
        ∀ row ∈ ((Text.trim b.label.toList).splitOn '\n').tail, Text.IsRemark row)) ∧
    (∀ f l, (.function f, l) ∈ p.origins style → f.isComplete = false →
      l = emptyLine ∨ ((∀ row ∈ l.rows style.indentWidth, Text.IsRemark row) ↔
        ∀ row ∈ ((f.name.toList ++ "': missing Start or End block".toList).splitOn '\n').tail, Text.IsRemark row)) ∧
    (∀ g name l, (.declaration g name, l) ∈ p.origins style →
      ∃ id b i, g.block? id = some b ∧ b.instruction = .ok i ∧ name ∈ i.noted) ∧
    ∀ g test l, (.test g test, l) ∈ p.origins style →
      (∃ entry, (entry, test) ∈ g.doLoops) ∧ ∃ row ∈ l.rows style.indentWidth, ¬Text.IsRemark row := by
  have haccounts := fun o l (h : (o, l) ∈ p.origins style) => p.accounts_of_mem_origins style (o, l) h
  refine ⟨?_, fun g id l b fault h hb hi => ?_, fun f l h hf => ?_, fun g name l h => ?_, fun g test l h => ?_⟩
  · show (String.ofList _).toList.splitOn '\n' = _
    rw [String.toList_ofList, Line.splitOn_flatMap_write, ← p.map_snd_origins style, List.flatMap_map]
  · cases haccounts _ _ h with
    | read hb' hi' =>
      cases hb.symm.trans hb'
      cases hi.symm.trans hi'
    | unread hb' hi' =>
      cases hb.symm.trans hb'
      exact ⟨rfl, Line.isRemark_rows_iff " Unrecognized block: ".toList rfl (by decide)⟩
  · cases haccounts _ _ h with
    | complete hf' => cases hf.symm.trans hf'
    | incomplete =>
      refine .inr (Line.isRemark_rows_iff " Incomplete function '".toList ?_ (by decide))
      exact List.append_assoc _ _ _
    | behind => exact .inl rfl
  · cases haccounts _ _ h with
    | declaration hb hi hname => exact ⟨_, _, _, hb, hi, hname⟩
  · cases haccounts _ _ h with
    | opening hloop => exact ⟨⟨_, hloop⟩, Line.exists_not_isRemark (c := 'd') rfl (by decide)⟩
    | closing hloop => exact ⟨⟨_, hloop⟩, Line.exists_not_isRemark (c := '\x7d') rfl (by decide)⟩

/-- A program with a call that is not finished, and a function of which there is only the beginning. -/
def unfinished : Program where
  main :=
    { blocks := [⟨0, .start, ""⟩, ⟨1, .functionCall, "f(x) +\n  // to be continued"⟩, ⟨2, .finish, ""⟩]
      edges := [⟨0, 1, none, none⟩, ⟨1, 2, none, none⟩] }
  functions := .ofList [{ name := "f", returnType := .void, body := { blocks := [⟨0, .start, ""⟩] } }]

/-- All that is written for the call are two remarks. -/
theorem code_remarks_unfinished :
    (.block unfinished.main 1, ⟨1, "// Unrecognized block: f(x) +\n  // to be continued".toList⟩) ∈
      unfinished.origins {} ∧
    (∀ l, (.block unfinished.main 1, l) ∈ unfinished.origins {} → ∀ row ∈ l.rows 4, Text.IsRemark row) ∧
    ∀ f ∈ unfinished.functions.toList, ∀ l, (.function f, l) ∈ unfinished.origins {} →
      l = emptyLine ∨ ∀ row ∈ l.rows 4, Text.IsRemark row := by
  obtain ⟨-, hblocks, hfunctions, -⟩ := code_remarks unfinished {}
  refine ⟨by decide +kernel, fun l hl => ?_, fun f hf l hl => ?_⟩
  · have hread : Block.instruction ⟨1, .functionCall, "f(x) +\n  // to be continued"⟩ =
        .error (.invalidLabel .functionCall "f(x) +\n  // to be continued" "expected 'name(args)'") := by decide +kernel
    exact (hblocks _ _ l _ _ hl rfl hread).2.mpr (by decide +kernel)
  · rw [List.mem_singleton.mp hf] at hl
    exact (hfunctions _ l hl (by decide +kernel)).imp_right fun h => h.mpr (by decide +kernel)

/-- A program with a line end in the label of a call, and in the name of a function, and with a loop whose test has no
label. -/
def straying : Program where
  main :=
    { blocks := [⟨0, .start, ""⟩, ⟨1, .functionCall, "f(x) +\nsystem(\"date\");"⟩, ⟨2, .assignment, "a = 1"⟩,
        ⟨3, .doWhile, ""⟩, ⟨4, .finish, ""⟩]
      edges := [⟨0, 1, none, none⟩, ⟨1, 2, none, none⟩, ⟨2, 3, none, none⟩, ⟨3, 2, none, some .whenTrue⟩,
        ⟨3, 4, none, some .whenFalse⟩] }
  functions := .ofList [{ name := "f\nint g", returnType := .void, body := { blocks := [⟨0, .start, ""⟩] } }]

/-- In its code, a call stands on a row of its own, and so does the beginning of a declaration; and there is a loop
without a condition. -/
theorem straying_rows :
    (straying.main.block? 1).map Block.instruction =
      some (.error (.invalidLabel .functionCall "f(x) +\nsystem(\"date\");" "expected 'name(args)'")) ∧
    (∃ a ∈ straying.origins {}, a.1 = .block straying.main 1 ∧
      ∃ row ∈ a.2.rows 4, row = "system(\"date\");".toList ∧ ¬Text.IsRemark row) ∧
    (∃ f ∈ straying.functions.toList, f.isComplete = false ∧ ∃ a ∈ straying.origins {}, a.1 = .function f ∧
      ∃ row ∈ a.2.rows 4, row = "int g': missing Start or End block".toList ∧ ¬Text.IsRemark row) ∧
    (straying.main.block? 3).map Block.instruction = some (.error (.invalidLabel .doWhile "" "missing condition")) ∧
    (∃ a ∈ straying.origins {}, a.1 = .test straying.main 3 ∧
      ∃ row ∈ a.2.rows 4, row = "    do \x7b".toList ∧ ¬Text.IsRemark row) ∧
    ∃ a ∈ straying.origins {}, a.1 = .test straying.main 3 ∧
      ∃ row ∈ a.2.rows 4, row = "    \x7d while ();".toList ∧ ¬Text.IsRemark row := by
  decide +kernel

end Program

end Flowchart
