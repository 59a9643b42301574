import Flowchart.Proofs.Calls
import Flowchart.Proofs.Code.Coverage

/-!
# What is assigned to is declared

Blocks declare no variables, so the code for a chart begins with declarations of all the variables that its blocks
assign to, as far as the search for them finds them.  It looks at every block that can be come to, and it notes the
variables of assignments, inputs and calls, and of the first clauses of counting loops; those of their last clauses it
does not note.

* `Instruction.noted`, `Instruction.stepped`, `Instruction.targets` — the variables to which an instruction assigns:
  those that are noted, and those of last clauses.  **`Machine.execute_changes`** says that a block changes no others.
* `Graph.assignedAt`, `Graph.Assigns` — a block assigns to a variable, and some live block does.
* `Typing.Has` — a variable has a type; `Typing.has_declare` and `Typing.has_note` are the steps, and
  **`Graph.has_typing_iff`** says which variables of a chart have types: the parameters, and the names that are noted.
* `Graph.Declares` — a parameter, or a variable with a declaration at the beginning of the code.
* **`Program.targets_declared`** — for all charts of a program.
-/

namespace Flowchart

/-! ### Variables to which blocks assign -/

/-- The variable that a clause of a counting loop binds. -/
def clauseTargets (clause : Text) : List String := (assignment? clause).toList.map fun a => String.ofList a.target

namespace Instruction

/-- The variables to which an instruction assigns, the last clauses of counting loops left out. -/
def noted : Instruction → List String
  | assign target _ => target.toList
  | input names => names
  | call target _ _ => target.toList
  | forLoop init _ _ => clauseTargets init
  | _ => []

/-- The variables to which the last clauses of counting loops assign. -/
def stepped : Instruction → List String
  | forLoop _ _ increment => clauseTargets increment
  | _ => []

/-- The variables to which an instruction assigns when it is carried out. -/
def targets (i : Instruction) : List String := i.noted ++ i.stepped

end Instruction

/-- The variables to which a block assigns; which of the variables of its instruction count is left open.  A block that
cannot be read assigns to none. -/
def Graph.assignedAt (g : Graph) (among : Instruction → List String) (id : BlockId) : List String :=
  match (g.block? id).map Block.instruction with
  | some (.ok i) => among i
  | _ => []

/-- Some live block assigns to a variable. -/
def Graph.Assigns (g : Graph) (among : Instruction → List String) (name : String) : Prop :=
  ∃ id, g.Live id ∧ name ∈ g.assignedAt among id

/-! ### What execution changes -/

section Changes

variable {σ α β : Type} {R : σ → σ → Prop}

theorem Action.Keeps.bind (htrans : ∀ s t u, R s t → R t u → R s u) {act : Action σ α} {next : α → Action σ β}
    (h : act.Keeps R) (hnext : ∀ a, (next a).Keeps R) : (act >>= next).Keeps R := by
  intro s
  rw [Action.bind_apply]
  have hs := h s
  cases hact : act s with
  | done a t =>
    rw [hact] at hs
    exact (hnext a t).imp fun u htu => htrans s t u hs htu
  | failed f t =>
    rw [hact] at hs
    exact hs
  | unfinished => trivial

end Changes

namespace Machine

section Keeping

variable {R : Machine → Machine → Prop} {env : Environment Machine} (hrefl : ∀ m, R m m)
  (htrans : ∀ m n o, R m n → R n o → R m o) (hcalls : ∀ name arguments, (env.call name arguments).Keeps R)
include hrefl htrans hcalls

theorem evaluateEach_keeps (ts : List Text) : (evaluateEach env ts).Keeps R := by
  induction ts with
  | nil => exact hrefl
  | cons t rest ih =>
    exact (evaluate_keeps hrefl htrans hcalls t).bind htrans fun v => ih.bind htrans fun vs => hrefl

theorem runClause_keeps {clause : Text} (hbind : ∀ name ∈ clauseTargets clause, ∀ v, (bind name v).Keeps R) :
    (runClause env clause).Keeps R := by
  unfold clauseTargets at hbind
  unfold Machine.runClause
  split
  · exact hrefl
  · split
    · next a ha =>
      rw [ha] at hbind
      exact (evaluate_keeps hrefl htrans hcalls a.expression).bind htrans fun v => hbind _ List.mem_cons_self v
    · exact (evaluate_keeps hrefl htrans hcalls clause).bind htrans fun _ => hrefl

/-- What calls keep, and what is kept when a variable of the instruction is bound, a value is printed and, at a loop
that is tracked, the outcome of its test is noted, the instruction keeps. -/
theorem perform_keeps (g : Graph) (id : BlockId) {i : Instruction}
    (hbind : ∀ name ∈ i.targets, ∀ v, (bind name v).Keeps R) (hprint : ∀ v, (print v).Keeps R)
    (hnote : i.kind = .loop ∨ i.kind = .forLoop → ∀ outcome, (noteLoop id outcome).Keeps R) :
    (perform env g id i).Keeps R := by
  have hbind? : ∀ {target : Option String}, (∀ name ∈ target, ∀ v, (bind name v).Keeps R) →
      ∀ v, (Machine.bind? target v).Keeps R := by
    intro target htarget v
    cases target with
    | none => exact hrefl
    | some name => exact htarget name rfl v
  have hcondition := evaluateCondition_keeps hrefl htrans hcalls
  cases i with
  | start | finish | merge | input => exact hrefl
  | assign target expression =>
    have htarget : ∀ name ∈ target, ∀ v, (bind name v).Keeps R :=
      fun name hname => hbind name (List.mem_append_left _ (Option.mem_toList.mpr hname))
    exact (evaluate_keeps hrefl htrans hcalls expression).bind htrans fun v =>
      (hbind? htarget v).bind htrans fun _ => hrefl
  | output expression =>
    exact (evaluate_keeps hrefl htrans hcalls expression).bind htrans fun v => (hprint v).bind htrans fun _ => hrefl
  | choose condition | doWhile condition => exact (hcondition condition).bind htrans fun _ => hrefl
  | whileLoop condition =>
    exact (hcondition condition).bind htrans fun outcome => (hnote (.inl rfl) outcome).bind htrans fun _ => hrefl
  | forLoop init condition increment =>
    have hclause : ∀ again, ∀ name ∈ clauseTargets (if again = true then increment else init),
        ∀ v, (bind name v).Keeps R := by
      intro again name hname
      split at hname
      · exact hbind name (List.mem_append_right _ hname)
      · exact hbind name (List.mem_append_left _ hname)
    have hloop : (inLoop id).Keeps R := hrefl
    exact hloop.bind htrans fun again => (runClause_keeps hrefl htrans hcalls (hclause again)).bind htrans fun _ =>
      (hcondition condition).bind htrans fun outcome => (hnote (.inr rfl) outcome).bind htrans fun _ => hrefl
  | call target function arguments =>
    have htarget : ∀ name ∈ target, ∀ v, (bind name v).Keeps R :=
      fun name hname => hbind name (List.mem_append_left _ (Option.mem_toList.mpr hname))
    exact (evaluateEach_keeps hrefl htrans hcalls arguments).bind htrans fun values =>
      (hcalls function values).bind htrans fun v => (hbind? htarget v).bind htrans fun _ => hrefl

end Keeping

/-- No variable is changed but those of a list. -/
def ChangesOnly (names : List String) (m n : Machine) : Prop :=
  ∀ name, name ∉ names → n.scope.get? name = m.scope.get? name

namespace ChangesOnly

variable {names : List String}

theorem refl (m : Machine) : ChangesOnly names m m := fun _ _ => rfl

theorem trans (m n o : Machine) (h : ChangesOnly names m n) (h' : ChangesOnly names n o) : ChangesOnly names m o :=
  fun name hname => (h' name hname).trans (h name hname)

theorem bind {name : String} (h : name ∈ names) (v : Value) : (Machine.bind name v).Keeps (ChangesOnly names) := by
  intro m other hother
  have hne : other ≠ name := fun heq => hother (heq ▸ h)
  show (m.scope.set name v).get? other = m.scope.get? other
  rw [Scope.get?_set, if_neg hne]

end ChangesOnly

/-- **A block changes no variable but those to which its instruction assigns**, in whatever state it is executed, and
whatever it calls. -/
theorem execute_changes (p : Program) (limit allowance room : Nat) (g : Graph) (b : Block) (m : Machine) :
    (execute (environment (call p limit allowance room)) g b m).Ends fun n =>
      ∀ name, n.scope.get? name ≠ m.scope.get? name → ∃ i, b.instruction = .ok i ∧ name ∈ i.targets := by
  have hcalls : ∀ names name arguments,
      ((environment (call p limit allowance room)).call name arguments).Keeps (ChangesOnly names) :=
    fun names name arguments n => (call_keeps p limit allowance room name arguments n).imp
      fun o ho other _ => by rw [ho.scope_eq]
  unfold execute
  cases hi : b.instruction with
  | error f => exact fun name hname => absurd rfl hname
  | ok i =>
    have hkeeps : (perform (environment (call p limit allowance room)) g b.id i).Keeps (ChangesOnly i.targets) :=
      perform_keeps ChangesOnly.refl ChangesOnly.trans (hcalls i.targets) g b.id (fun _ hname => ChangesOnly.bind hname)
        (fun _ _ _ _ => rfl) fun _ _ _ _ _ => rfl
    refine (hkeeps m).imp fun n hn name hname => ⟨i, rfl, ?_⟩
    by_contra hnot
    exact hname (hn name hnot)

end Machine

/-! ### Variables that have types -/

namespace Typing

/-- A variable has a type. -/
def Has (t : Typing) (name : String) : Prop := (t.get? name).isSome = true

variable {t : Typing} {name : String}

/-- A variable that is declared has a type from then on, if its name is a name. -/
theorem has_declare (target : String) (type : DataType) :
    (t.declare target type).Has name ↔ t.Has name ∨ (name = target ∧ Text.isName name.toList = true) := by
  unfold declare
  split
  · next h =>
    obtain ⟨hname, -⟩ := Bool.and_eq_true_iff.mp h
    show ((t.parameters.get? name).or ((t.locals.set target type).get? name)).isSome = true ↔ _
    rw [Bindings.get?_set]
    by_cases heq : name = target
    · rw [if_pos heq, Option.isSome_or, Option.isSome_some, Bool.or_true]
      exact ⟨fun _ => .inr ⟨heq, heq ▸ hname⟩, fun _ => rfl⟩
    · rw [if_neg heq]
      exact ⟨.inl, fun hhas => hhas.resolve_right fun hnew => heq hnew.1⟩
  · next h =>
    refine ⟨.inl, fun hhas => ?_⟩
    rcases hhas with hhas | ⟨rfl, hname⟩
    · exact hhas
    · -- It is declared already, or it would have been declared now.
      have hnone : (t.get? name).isNone ≠ true := fun hnone => h (Bool.and_eq_true_iff.mpr ⟨hname, hnone⟩)
      unfold Has
      rw [← Option.not_isNone, Bool.eq_false_iff.mpr hnone]
      rfl

theorem parameters_declare (target : String) (type : DataType) : (t.declare target type).parameters = t.parameters := by
  unfold declare
  split <;> rfl

/-- Several variables of one type that are declared. -/
theorem has_declare_all (names : List String) (type : DataType) :
    (names.foldl (fun t name => t.declare name type) t).Has name ↔
      t.Has name ∨ (name ∈ names ∧ Text.isName name.toList = true) := by
  induction names generalizing t with
  | nil => simp
  | cons first rest ih =>
    rw [List.foldl_cons, ih, has_declare, List.mem_cons]
    tauto

/-- **What an instruction notes** has a type from then on, and nothing else. -/
theorem has_note (functions : FunctionTable) (i : Instruction) :
    (t.note functions i).Has name ↔ t.Has name ∨ (name ∈ i.noted ∧ Text.isName name.toList = true) := by
  have hnone : t.Has name ↔ t.Has name ∨ (name ∈ ([] : List String) ∧ Text.isName name.toList = true) := by simp
  cases i with
  | start | finish | merge | output | choose | whileLoop | doWhile => exact hnone
  | input names => exact has_declare_all names .int
  | assign target expression | call target function arguments =>
    cases target with
    | none => exact hnone
    | some target =>
      rw [note, has_declare, Instruction.noted, Option.toList_some, List.mem_singleton]
  | forLoop init condition increment =>
    rw [note, Instruction.noted, clauseTargets]
    cases assignment? init with
    | none => exact hnone
    | some a =>
      dsimp only
      rw [has_declare, Option.toList_some, List.map_singleton, List.mem_singleton]

theorem parameters_note (functions : FunctionTable) (i : Instruction) :
    (t.note functions i).parameters = t.parameters := by
  have hall : ∀ (names : List String) (t : Typing),
      (names.foldl (fun t name => t.declare name .int) t).parameters = t.parameters := by
    intro names
    induction names with
    | nil => exact fun _ => rfl
    | cons first rest ih => exact fun t => (ih _).trans (parameters_declare first .int)
  unfold note
  split
  · exact parameters_declare _ _
  · exact hall _ t
  · exact parameters_declare _ _
  · split
    · exact parameters_declare _ _
    · rfl
  · rfl

/-- The parameters of a signature have types, and nothing else. -/
theorem has_ofParameters (parameters : List Parameter) :
    (Typing.ofParameters parameters).Has name ↔ name ∈ parameters.map Parameter.name := by
  have hfold : ∀ b : Bindings DataType,
      ((parameters.foldl (fun b p => b.set p.name p.type) b).get? name).isSome = true ↔
        (b.get? name).isSome = true ∨ name ∈ parameters.map Parameter.name := by
    induction parameters with
    | nil => simp
    | cons p rest ih =>
      intro b
      rw [List.foldl_cons, ih, Bindings.get?_set, List.map_cons, List.mem_cons]
      split
      · next heq => simp [heq]
      · next heq => simp [heq]
  show (((Typing.ofParameters parameters).parameters.get? name).or none).isSome = true ↔ _
  rw [Option.or_none]
  refine (hfold []).trans (or_iff_right ?_)
  exact Bool.false_ne_true

end Typing

namespace Graph

variable {g : Graph} {name : String}

/-- What a block notes has a type from then on, and nothing else. -/
theorem has_noteBlock (functions : FunctionTable) (t : Typing) (id : BlockId) :
    (t.noteBlock functions g id).Has name ↔
      t.Has name ∨ (name ∈ g.assignedAt Instruction.noted id ∧ Text.isName name.toList = true) := by
  unfold Typing.noteBlock assignedAt
  cases (g.block? id).map Block.instruction with
  | none => simp
  | some reading =>
    cases reading with
    | error f => simp
    | ok i => exact Typing.has_note functions i

theorem has_noteBlocks (functions : FunctionTable) (ids : List BlockId) (t : Typing) :
    (ids.foldl (Typing.noteBlock functions g) t).Has name ↔
      t.Has name ∨ ((∃ id ∈ ids, name ∈ g.assignedAt Instruction.noted id) ∧ Text.isName name.toList = true) := by
  induction ids generalizing t with
  | nil => simp
  | cons id ids ih =>
    rw [List.foldl_cons, ih, has_noteBlock, List.exists_mem_cons_iff]
    tauto

/-- **The variables of a chart that have types**: the parameters, and the names to which live blocks assign, those of
last clauses left out. -/
theorem has_typing_iff (functions : FunctionTable) (parameters : List Parameter) :
    (g.typing functions parameters).Has name ↔
      name ∈ parameters.map Parameter.name ∨ (g.Assigns Instruction.noted name ∧ Text.isName name.toList = true) := by
  unfold typing
  cases hstart : g.start? with
  | none =>
    have hno : ¬g.Assigns Instruction.noted name := fun ⟨id, hlive, _⟩ => not_live_of_start?_eq_none hstart id hlive
    rw [Typing.has_ofParameters]
    exact ⟨.inl, fun h => h.resolve_right fun hassigns => hno hassigns.1⟩
  | some start =>
    have hlive : (∃ id ∈ g.breadthFirst start, name ∈ g.assignedAt Instruction.noted id) ↔
        g.Assigns Instruction.noted name :=
      exists_congr fun id => and_congr_left fun _ => (live_iff_mem_breadthFirst hstart id).symm
    dsimp only
    rw [has_noteBlocks, Typing.has_ofParameters, hlive]

/-- The variables that have types in front of the search are the parameters, so all the others are declared. -/
theorem parameters_typing (functions : FunctionTable) (parameters : List Parameter) :
    (g.typing functions parameters).parameters = (Typing.ofParameters parameters).parameters := by
  have hall : ∀ (ids : List BlockId) (t : Typing),
      (ids.foldl (Typing.noteBlock functions g) t).parameters = t.parameters := by
    intro ids
    induction ids with
    | nil => exact fun _ => rfl
    | cons id ids ih =>
      intro t
      refine (ih _).trans ?_
      unfold Typing.noteBlock
      split
      · exact Typing.parameters_note functions _
      · rfl
  unfold typing
  split
  · exact hall _ _
  · rfl

/-! ### Declarations -/

/-- A variable is a parameter, or there is a declaration of it at the beginning of the code for a chart. -/
def Declares (g : Graph) (style : CodeStyle) (functions : FunctionTable) (parameters : List Parameter)
    (name : String) : Prop :=
  name ∈ parameters.map Parameter.name ∨ ∃ type, (name, type) ∈ (g.typing functions parameters).locals ∧
    ⟨1, style.declaration name type⟩ ∈
      (g.body style functions parameters).take (g.typing functions parameters).locals.length

/-- What has a type is declared. -/
theorem declares_of_has (style : CodeStyle) {functions : FunctionTable} {parameters : List Parameter}
    (h : (g.typing functions parameters).Has name) : g.Declares style functions parameters name := by
  unfold Typing.Has Typing.get? at h
  rw [Option.isSome_or, Bool.or_eq_true] at h
  rcases h with hparameter | hlocal
  · have hhas : (Typing.ofParameters parameters).Has name := by
      unfold Typing.Has Typing.get?
      rw [← parameters_typing (g := g) functions parameters, Option.isSome_or, hparameter]
      rfl
    exact .inl ((Typing.has_ofParameters parameters).mp hhas)
  · obtain ⟨⟨_, type⟩, hmem, rfl⟩ := List.mem_map.mp ((Bindings.isSome_get?_iff name _).mp hlocal)
    refine .inr ⟨type, hmem, ?_⟩
    unfold body
    dsimp only
    rw [List.take_left' (List.length_map _)]
    exact List.mem_map_of_mem hmem

/-- **What live blocks assign to is declared**, if it is a name, and if the last clauses of counting loops assign to no
variables but parameters and those to which something else assigns. -/
theorem declares_of_assigns (style : CodeStyle) {functions : FunctionTable} {parameters : List Parameter}
    (hstepped : g.Assigns Instruction.stepped name →
      name ∈ parameters.map Parameter.name ∨ g.Assigns Instruction.noted name)
    (hname : Text.isName name.toList = true) (h : g.Assigns Instruction.targets name) :
    g.Declares style functions parameters name := by
  refine declares_of_has style ((has_typing_iff functions parameters).mpr ?_)
  obtain ⟨id, hlive, hmem⟩ := h
  have htargets : name ∈ g.assignedAt Instruction.noted id ∨ name ∈ g.assignedAt Instruction.stepped id := by
    unfold assignedAt at hmem ⊢
    split at hmem
    · next i _ => exact List.mem_append.mp hmem
    · cases hmem
  rcases htargets with hnoted | hstep
  · exact .inr ⟨⟨id, hlive, hnoted⟩, hname⟩
  · exact (hstepped ⟨id, hlive, hstep⟩).imp_right fun hnoted => ⟨hnoted, hname⟩

end Graph

/-! ### Programs -/

namespace Program

/-- **Every variable that the code assigns to is declared**, in the main chart and in every function that has code: the
targets of all live blocks, and the variable that is returned.  In the last clause of a counting loop, and as the result
of a function, there must not be a variable that nothing else assigns to. -/
theorem targets_declared (p : Program) (style : CodeStyle)
    (hmain : ∀ name, p.main.Assigns Instruction.stepped name → p.main.Assigns Instruction.noted name)
    (hfunctions : ∀ f ∈ p.functions.toList, f.isComplete = true → ∀ name, f.body.Assigns Instruction.stepped name →
      name ∈ f.parameters.map Parameter.name ∨ f.body.Assigns Instruction.noted name)
    (hresults : ∀ f ∈ p.functions.toList, f.isComplete = true → ∀ name, f.resultVariable? = some name →
      name ∈ f.parameters.map Parameter.name ∨
        (f.body.Assigns Instruction.noted name ∧ Text.isName name.toList = true)) :
    (∀ name, Text.isName name.toList = true → p.main.Assigns Instruction.targets name →
      p.main.Declares style p.functions [] name) ∧
    ∀ f ∈ p.functions.toList, f.isComplete = true →
      (∀ name, Text.isName name.toList = true → f.body.Assigns Instruction.targets name →
        f.body.Declares style p.functions f.parameters name) ∧
      ∀ name, f.resultVariable? = some name → f.body.Declares style p.functions f.parameters name := by
  refine ⟨fun name hname h => ?_, fun f hf hcomplete => ⟨fun name hname h => ?_, fun name hname => ?_⟩⟩
  · exact Graph.declares_of_assigns style (fun hstep => .inr (hmain name hstep)) hname h
  · exact Graph.declares_of_assigns style (hfunctions f hf hcomplete name) hname h
  · exact Graph.declares_of_has style ((Graph.has_typing_iff _ _).mpr (hresults f hf hcomplete name hname))

/-- A program that counts, with a function that computes. -/
def counting : Program where
  main :=
    { blocks := [⟨0, .start, ""⟩, ⟨1, .forLoop, "i = 0; i < 3; i = i + 1"⟩, ⟨2, .functionCall, "s = next(i)"⟩,
        ⟨3, .finish, ""⟩]
      edges := [⟨0, 1, none, none⟩, ⟨1, 2, none, some .whenTrue⟩, ⟨2, 1, none, none⟩,
        ⟨1, 3, none, some .whenFalse⟩] }
  functions := .ofList
    [{ name := "next", parameters := [⟨"n", .int⟩], returnType := .int, returnVariable := some "m"
       body := { blocks := [⟨0, .start, ""⟩, ⟨1, .assignment, "m = n + 1"⟩, ⟨2, .finish, ""⟩]
                 edges := [⟨0, 1, none, none⟩, ⟨1, 2, none, none⟩] } }]

/-- In the program that counts, the counter and the result are declared, each in its place. -/
theorem counting_declared :
    counting.main.Declares {} counting.functions [] "i" ∧
    ∀ f ∈ counting.functions.toList, f.isComplete = true → f.body.Declares {} counting.functions f.parameters "m" := by
  have hlive : ∀ id, counting.main.Live id → id ∈ [0, 1, 2, 3] :=
    fun id h => (Graph.live_iff_mem_breadthFirst (rfl : counting.main.start? = some 0) id).mp h
  have hstepped : ∀ id ∈ [0, 1, 2, 3], ∀ name ∈ counting.main.assignedAt Instruction.stepped id,
      name ∈ counting.main.assignedAt Instruction.noted 1 := by decide +kernel
  have hmain : ∀ name, counting.main.Assigns Instruction.stepped name → counting.main.Assigns Instruction.noted name :=
    fun name ⟨id, hid, hname⟩ => ⟨1, by decide, hstepped id (hlive id hid) name hname⟩
  have hbodies : ∀ f ∈ counting.functions.toList, f.body.start? = some 0 ∧
      (∀ id ∈ f.body.breadthFirst 0, f.body.assignedAt Instruction.stepped id = []) ∧
      f.resultVariable? = some "m" ∧ "m" ∈ f.body.assignedAt Instruction.noted 1 ∧ f.body.Live 1 := by decide +kernel
  have hfunctions : ∀ f ∈ counting.functions.toList, f.isComplete = true → ∀ name,
      f.body.Assigns Instruction.stepped name →
        name ∈ f.parameters.map Parameter.name ∨ f.body.Assigns Instruction.noted name := by
    rintro f hf - name ⟨id, hid, hname⟩
    obtain ⟨hstart, hnone, -⟩ := hbodies f hf
    rw [hnone id ((Graph.live_iff_mem_breadthFirst hstart id).mp hid)] at hname
    cases hname
  have hresults : ∀ f ∈ counting.functions.toList, f.isComplete = true → ∀ name, f.resultVariable? = some name →
      name ∈ f.parameters.map Parameter.name ∨
        (f.body.Assigns Instruction.noted name ∧ Text.isName name.toList = true) := by
    rintro f hf - name hname
    obtain ⟨-, -, hresult, hassigned, hone⟩ := hbodies f hf
    cases hresult.symm.trans hname
    exact .inr ⟨⟨1, hone, hassigned⟩, rfl⟩
  obtain ⟨hdeclared, hrest⟩ := targets_declared counting {} hmain hfunctions hresults
  refine ⟨hdeclared "i" rfl ⟨1, by decide, by decide +kernel⟩, fun f hf hcomplete => ?_⟩
  exact (hrest f hf hcomplete).2 "m" (hbodies f hf).2.2.1

/-- A program with a counting loop whose last clause assigns to a variable of its own. -/
def steppingAside : Program where
  main :=
    { blocks := [⟨0, .start, ""⟩, ⟨1, .forLoop, "i = 0; i < 3; j = i + 1"⟩, ⟨2, .assignment, "i = i + 1"⟩,
        ⟨3, .finish, ""⟩]
      edges := [⟨0, 1, none, none⟩, ⟨1, 2, none, some .whenTrue⟩, ⟨2, 1, none, none⟩,
        ⟨1, 3, none, some .whenFalse⟩] }

/-- **The variable of a last clause need not be declared**, even in a program that passes the checks. -/
theorem steppingAside_not_declared : steppingAside.validate = .ok () ∧ Text.isName "j".toList = true ∧
    steppingAside.main.Assigns Instruction.targets "j" ∧
    ¬steppingAside.main.Declares {} steppingAside.functions [] "j" := by
  refine ⟨rfl, rfl, ⟨1, by decide, by decide +kernel⟩, ?_⟩
  rintro (hparameter | ⟨type, hlocal, -⟩)
  · cases hparameter
  · have hnames : "j" ∉ (steppingAside.main.typing steppingAside.functions []).locals.map Prod.fst := by
      decide +kernel
    exact hnames (List.mem_map_of_mem hlocal)

end Program

end Flowchart
