import Flowchart.Proofs.Code.Declarations
import Flowchart.Proofs.FunctionTable

/-!
# What is assigned first fixes the type

The variables of a chart are declared in the order in which they are first assigned to, the blocks being taken breadth
first, and with the type of what is assigned to them there; an expression gets its type from the variables declared
before.  What is assigned later, parameters, and texts that are no names change nothing.

* `Graph.BreadthFirst` — an order of all live blocks in which every block stands where an edge first leads to it.
  **`Graph.breadthFirst_order`** says that the search from the start block gives such an order, and
  `Graph.BreadthFirst.unique` that there is no other.
* `Assigned`, `Assigned.type` — what a variable gets, and its type among the variables declared before;
  `Instruction.assignments` — the variables of an instruction with what they get.  `Typing.note_eq` says that an
  instruction declares them one after the other.
* `Typing.Settled` — the invariant of a row of declarations, with its step `Typing.Settled.concat`.
* **`Graph.locals_firstAssigned`** — the declared variables of a chart.
-/

namespace Flowchart

/-! ### The order of the search -/

namespace Graph

variable {g : Graph}

/-- An order of all live blocks: the start block comes first, and then the blocks behind the edges of one block after
the other, in this very order, each where an edge first leads to it. -/
structure BreadthFirst (g : Graph) (order : List BlockId) : Prop where
  mem_iff : ∀ id, id ∈ order ↔ g.Live id
  discovered : order = (g.start?.toList ++ order.flatMap g.targets).eraseDups

/-- A search visits what is in its queue, and then what it finds behind the blocks it visits, each where it first comes
up behind what it has visited before. -/
theorem Searched.discovered {seen queue visited : List BlockId}
    (h : g.Searched (fun _ => true) seen queue visited) {before : List BlockId}
    (hbefore : ∀ id, id ∈ before ↔ id ∈ seen) (hnodup : before.Nodup) :
    (before ++ (queue ++ visited.flatMap g.targets)).eraseDups = before ++ visited := by
  induction h generalizing before with
  | ends => rw [List.flatMap_nil, List.append_nil, List.append_nil, eraseDups_of_nodup hnodup]
  | passesOver hseen _ ih =>
    rw [List.cons_append, eraseDups_append_cons_of_mem ((hbefore _).mpr hseen), ih hbefore hnodup]
  | @visits seen queue visited id hfresh _ ih =>
    have hnew : id ∉ before := fun hmem => hfresh ((hbefore id).mp hmem)
    have hgrown : ∀ other, other ∈ before ++ [id] ↔ other ∈ id :: seen := fun other => by
      rw [List.mem_append, List.mem_singleton, List.mem_cons, hbefore, or_comm]
    have hapart : (before ++ [id]).Nodup := by
      rw [← List.concat_eq_append]
      exact hnodup.concat hnew
    have hrest := ih hgrown hapart
    rw [if_pos rfl] at hrest
    calc (before ++ (id :: queue ++ (id :: visited).flatMap g.targets)).eraseDups
        = (before ++ [id] ++ (queue ++ g.targets id ++ visited.flatMap g.targets)).eraseDups := by simp
      _ = before ++ [id] ++ visited := hrest
      _ = before ++ id :: visited := by rw [List.append_assoc, List.singleton_append]

/-- **The search from the start block** visits the live blocks in breadth-first order. -/
theorem breadthFirst_order {start : BlockId} (hstart : g.start? = some start) :
    g.BreadthFirst (g.breadthFirst start) where
  mem_iff id := (live_iff_mem_breadthFirst hstart id).symm
  discovered := by
    have hnone : ∀ id, id ∈ ([] : List BlockId) ↔ id ∈ ([] : List BlockId) := fun _ => Iff.rfl
    have h := (g.breadthFirst_searched start).discovered hnone .nil
    rw [hstart]
    exact h.symm

/-- Without a start block there is no live block to put into an order. -/
theorem breadthFirst_nil (hstart : g.start? = none) : g.BreadthFirst [] where
  mem_iff id := iff_of_false List.not_mem_nil (not_live_of_start?_eq_none hstart id)
  discovered := by
    rw [hstart]
    rfl

/-- The search from the start block, if there is one, gives a breadth-first order. -/
theorem exists_breadthFirst (g : Graph) : ∃ order, g.BreadthFirst order := by
  cases hstart : g.start? with
  | none => exact ⟨[], breadthFirst_nil hstart⟩
  | some start => exact ⟨_, breadthFirst_order hstart⟩

namespace BreadthFirst

variable {order other : List BlockId}

/-- What the first blocks lead to stands at the beginning. -/
theorem discovered_prefix (h : g.BreadthFirst order) (n : Nat) :
    (g.start?.toList ++ (order.take n).flatMap g.targets).eraseDups <+: order := by
  have hsplit : order = (g.start?.toList ++ (order.take n).flatMap g.targets ++
      (order.drop n).flatMap g.targets).eraseDups := by
    rw [List.append_assoc, ← List.flatMap_append, List.take_append_drop]
    exact h.discovered
  rw [List.eraseDups_append] at hsplit
  exact ⟨_, hsplit.symm⟩

/-- The first blocks are all of them, if they lead to no others. -/
theorem take_eq_self (h : g.BreadthFirst order) {n : Nat}
    (hlength : (g.start?.toList ++ (order.take n).flatMap g.targets).eraseDups.length ≤ n) :
    order.take n = order := by
  have hwithin : ∀ id ∈ g.start?.toList ++ (order.take n).flatMap g.targets, id ∈ order.take n := by
    intro id hid
    have hprefix := List.prefix_iff_eq_take.mp (h.discovered_prefix n)
    refine List.take_subset_take_left order hlength ?_
    rw [← hprefix]
    exact List.mem_eraseDups.mpr hid
  have hall : ∀ id ∈ order, id ∈ order.take n := by
    intro id hid
    refine ((h.mem_iff id).mp hid).mem (fun start hstart => hwithin start ?_) fun source hsource target ht => ?_
    · rw [hstart]
      exact List.mem_append_left _ List.mem_cons_self
    · exact hwithin target (List.mem_append_right _ (List.mem_flatMap.mpr ⟨source, hsource, ht⟩))
  have hnodup : order.Nodup := by
    rw [h.discovered]
    exact nodup_eraseDups _
  -- A block that came later would come up twice.
  have hnone : order.drop n = [] := by
    refine List.eq_nil_iff_forall_not_mem.mpr fun id hid => ?_
    rw [← List.take_append_drop n order] at hnodup
    exact (List.nodup_append.mp hnodup).2.2 id (hall id (List.mem_of_mem_drop hid)) id hid rfl
  rw [← List.append_nil (order.take n), ← hnone, List.take_append_drop]

/-- **There is one breadth-first order**: as long as the first blocks agree, so does the next one. -/
theorem unique (h : g.BreadthFirst order) (h' : g.BreadthFirst other) : order = other := by
  have htakes : ∀ n, order.take n = other.take n := by
    intro n
    induction n with
    | zero => rfl
    | succ n ih =>
      have hprefix := h.discovered_prefix n
      have hprefix' := h'.discovered_prefix n
      rw [← ih] at hprefix'
      rcases Nat.lt_or_ge n (g.start?.toList ++ (order.take n).flatMap g.targets).eraseDups.length with hlt | hge
      · obtain ⟨rest, hrest⟩ := hprefix
        obtain ⟨rest', hrest'⟩ := hprefix'
        rw [← hrest, ← hrest', List.take_append_of_le_length hlt, List.take_append_of_le_length hlt]
      · have hall := h.take_eq_self hge
        have hall' := h'.take_eq_self (ih ▸ hge)
        rw [← hall, ih, hall']
  have hall := htakes (order.length + other.length)
  rwa [List.take_of_length_le (Nat.le_add_right _ _), List.take_of_length_le (Nat.le_add_left _ _)] at hall

end BreadthFirst

end Graph

/-! ### What is assigned -/

/-- Where no name is repeated, a name stands for what it is bound to. -/
theorem Bindings.get?_append_cons {α : Type} {name : String} {a : α} {before after : Bindings α}
    (h : (names (before ++ (name, a) :: after)).Nodup) : get? name (before ++ (name, a) :: after) = some a := by
  induction before with
  | nil => exact if_pos rfl
  | cons first before ih =>
    obtain ⟨other, b⟩ := first
    obtain ⟨hother, hrest⟩ := List.nodup_cons.mp h
    have hmem : name ∈ names (before ++ (name, a) :: after) :=
      List.mem_map.mpr ⟨_, List.mem_append_right before List.mem_cons_self, rfl⟩
    have hne : other ≠ name := fun heq => hother (heq ▸ hmem)
    exact (if_neg hne).trans (ih hrest)

/-- What a variable gets. -/
inductive Assigned where
  /-- The value of an expression. -/
  | expression (code : Text)
  /-- A value from the input. -/
  | answer
  /-- The value of a function. -/
  | result (function : String)
  deriving Repr, DecidableEq

/-- The type of what a variable gets, the types of other variables being known. -/
def Assigned.type (functions : FunctionTable) (t : Typing) : Assigned → DataType
  | expression code => t.ofExpression functions code
  | answer => .int
  | result function => Typing.ofCall functions function

/-- The variable that a clause of a counting loop binds, with what it gets. -/
def clauseAssignments (clause : Text) : List (String × Assigned) :=
  (assignment? clause).toList.map fun a => (String.ofList a.target, .expression a.expression)

/-- The variables to which an instruction assigns, with what they get; the last clauses of counting loops are left
out. -/
def Instruction.assignments : Instruction → List (String × Assigned)
  | assign target code => target.toList.map (·, .expression code)
  | input names => names.map (·, .answer)
  | call target function _ => target.toList.map (·, .result function)
  | forLoop init _ _ => clauseAssignments init
  | _ => []

/-- They are the variables that are noted. -/
theorem Instruction.map_fst_assignments (i : Instruction) : i.assignments.map Prod.fst = i.noted := by
  cases i with
  | assign target | call target => cases target <;> rfl
  | input names => exact (List.map_map ..).trans (List.map_id names)
  | forLoop init =>
    show (clauseAssignments init).map Prod.fst = clauseTargets init
    unfold clauseAssignments clauseTargets
    rw [List.map_map]
    rfl
  | _ => rfl

/-- The variables to which a block assigns, with what they get.  A block that cannot be read assigns to none. -/
def Graph.assignmentsAt (g : Graph) (id : BlockId) : List (String × Assigned) :=
  match (g.block? id).map Block.instruction with
  | some (.ok i) => i.assignments
  | _ => []

theorem Graph.map_fst_assignmentsAt (g : Graph) (id : BlockId) :
    (g.assignmentsAt id).map Prod.fst = g.assignedAt Instruction.noted id := by
  unfold assignmentsAt assignedAt
  cases (g.block? id).map Block.instruction with
  | none => rfl
  | some reading =>
    cases reading with
    | error f => rfl
    | ok i => exact i.map_fst_assignments

namespace Typing

variable {functions : FunctionTable}

/-- A variable is declared with the type of what it gets. -/
def assign (functions : FunctionTable) (t : Typing) (a : String × Assigned) : Typing :=
  t.declare a.1 (a.2.type functions t)

/-- **An instruction declares the variables to which it assigns**, one after the other. -/
theorem note_eq (t : Typing) (i : Instruction) : t.note functions i = i.assignments.foldl (assign functions) t := by
  cases i with
  | assign target | call target => cases target <;> rfl
  | input names =>
    rw [note, Instruction.assignments, List.foldl_map]
    rfl
  | forLoop init =>
    rw [note, Instruction.assignments, clauseAssignments]
    cases assignment? init <;> rfl
  | _ => rfl

/-- So do blocks. -/
theorem noteBlocks_eq (g : Graph) (ids : List BlockId) (t : Typing) :
    ids.foldl (noteBlock functions g) t = (ids.flatMap g.assignmentsAt).foldl (assign functions) t := by
  rw [List.foldl_flatMap]
  refine List.foldl_ext _ _ t fun t id _ => ?_
  unfold noteBlock Graph.assignmentsAt
  cases (g.block? id).map Block.instruction with
  | none => rfl
  | some reading =>
    cases reading with
    | error f => rfl
    | ok i => exact note_eq t i

/-- A name that is no parameter. -/
def isLocalName (parameters : Bindings DataType) (name : String) : Bool :=
  Text.isName name.toList && (parameters.get? name).isNone

/-- What a variable gets declares it at the end, if it has a name of its own and is not declared yet. -/
theorem assign_eq (functions : FunctionTable) (t : Typing) (name : String) (value : Assigned) :
    t.assign functions (name, value) =
      if isLocalName t.parameters name = true ∧ name ∉ Bindings.names t.locals then
        { t with locals := t.locals ++ [(name, value.type functions t)] }
      else t := by
  have hcondition : (Text.isName name.toList && (t.get? name).isNone) = true ↔
      isLocalName t.parameters name = true ∧ name ∉ Bindings.names t.locals := by
    rw [isLocalName, get?, ← Bindings.isSome_get?_iff, Bool.not_eq_true, Option.isSome_eq_false_iff]
    cases t.parameters.get? name <;> simp
  rw [assign, declare]
  by_cases h : isLocalName t.parameters name = true ∧ name ∉ Bindings.names t.locals
  · rw [if_pos h, if_pos (hcondition.mpr h), Bindings.set_of_not_mem h.2]
  · rw [if_neg h, if_neg fun hnew => h (hcondition.mp hnew)]

/-- **What is left of a row of assignments**: each name that is no parameter is declared once, in the order in which the
names first come up, with the type of what is assigned to it there among the variables declared before. -/
structure Settled (functions : FunctionTable) (parameters : Bindings DataType) (assigned : List (String × Assigned))
    (t : Typing) : Prop where
  parameters_eq : t.parameters = parameters
  names_eq : Bindings.names t.locals = ((assigned.map Prod.fst).filter (isLocalName parameters)).eraseDups
  type_eq : ∀ before name type after, t.locals = before ++ (name, type) :: after →
    ∃ earlier a later, assigned = earlier ++ (name, a) :: later ∧ name ∉ earlier.map Prod.fst ∧
      type = a.type functions { parameters, locals := before }

namespace Settled

variable {parameters : Bindings DataType} {assigned : List (String × Assigned)} {t : Typing} {name : String}

theorem nil (parameters : Bindings DataType) : Settled functions parameters [] { parameters } where
  parameters_eq := rfl
  names_eq := rfl
  type_eq := by
    intro before name type after h
    exact absurd h.symm (List.append_ne_nil_of_right_ne_nil _ (List.cons_ne_nil _ _))

theorem mem_names_iff (h : Settled functions parameters assigned t) :
    name ∈ Bindings.names t.locals ↔ name ∈ assigned.map Prod.fst ∧ isLocalName parameters name = true := by
  rw [h.names_eq, List.mem_eraseDups, List.mem_filter]

/-- What is assigned later changes no type. -/
theorem later (h : Settled functions parameters assigned t) (more : List (String × Assigned))
    {before after : Bindings DataType} {type : DataType} (hsplit : t.locals = before ++ (name, type) :: after) :
    ∃ earlier a later, assigned ++ more = earlier ++ (name, a) :: later ∧ name ∉ earlier.map Prod.fst ∧
      type = a.type functions { parameters, locals := before } := by
  obtain ⟨earlier, a, later, rfl, hearlier, htype⟩ := h.type_eq before name type after hsplit
  exact ⟨earlier, a, later ++ more, by rw [List.append_assoc, List.cons_append], hearlier, htype⟩

/-- **One more assignment** declares one more variable, or changes nothing. -/
theorem concat (h : Settled functions parameters assigned t) (a : String × Assigned) :
    Settled functions parameters (assigned ++ [a]) (t.assign functions a) := by
  obtain ⟨name, value⟩ := a
  rw [assign_eq, h.parameters_eq]
  split
  · next hnew =>
    obtain ⟨hname, hfresh⟩ := hnew
    have hfirst : name ∉ assigned.map Prod.fst := fun hmem => hfresh (h.mem_names_iff.mpr ⟨hmem, hname⟩)
    refine ⟨rfl, ?_, fun before other type after hsplit => ?_⟩
    · rw [List.map_append, List.filter_append, List.map_singleton, List.filter_cons_of_pos hname, List.filter_nil,
        eraseDups_concat, if_neg fun hmem => hfirst (List.mem_filter.mp hmem).1, ← h.names_eq]
      exact List.map_append
    · -- It is the variable that is declared now, or one that was declared before.
      rcases List.eq_nil_or_concat' after with rfl | ⟨after, last, rfl⟩
      · obtain ⟨rfl, hlast⟩ := List.append_inj' hsplit rfl
        obtain ⟨rfl, rfl⟩ := Prod.mk.inj (List.cons.inj hlast).1
        refine ⟨assigned, value, [], rfl, hfirst, ?_⟩
        rw [← h.parameters_eq]
      · rw [← List.cons_append, ← List.append_assoc] at hsplit
        exact h.later _ (List.append_inj' hsplit rfl).1
  · next hold =>
    refine ⟨h.parameters_eq, ?_, fun before other type after hsplit => h.later _ hsplit⟩
    rw [List.map_append, List.filter_append, List.map_singleton]
    by_cases hname : isLocalName parameters name = true
    · have hknown : name ∈ Bindings.names t.locals := not_not.mp fun hfresh => hold ⟨hname, hfresh⟩
      rw [List.filter_cons_of_pos hname, List.filter_nil, eraseDups_concat,
        if_pos (List.mem_filter.mpr (h.mem_names_iff.mp hknown)), h.names_eq]
    · rw [List.filter_cons_of_neg hname, List.filter_nil, List.append_nil, h.names_eq]

/-- So do all the assignments of a row. -/
theorem foldl (h : Settled functions parameters assigned t) (more : List (String × Assigned)) :
    Settled functions parameters (assigned ++ more) (more.foldl (assign functions) t) := by
  induction more generalizing assigned t with
  | nil => rwa [List.append_nil]
  | cons a more ih =>
    have hrest := ih (h.concat a)
    rwa [List.append_assoc] at hrest

end Settled

end Typing

namespace Graph

/-- **The variables of a chart are settled** by what its blocks assign, breadth first from the start block. -/
theorem typing_settled (g : Graph) (functions : FunctionTable) (parameters : List Parameter) {order : List BlockId}
    (h : g.BreadthFirst order) :
    Typing.Settled functions (Typing.ofParameters parameters).parameters (order.flatMap g.assignmentsAt)
      (g.typing functions parameters) := by
  have hnone : Typing.Settled functions (Typing.ofParameters parameters).parameters []
      { parameters := (Typing.ofParameters parameters).parameters } := .nil _
  have hrow := hnone.foldl (order.flatMap g.assignmentsAt)
  rw [List.nil_append] at hrow
  unfold typing
  cases hstart : g.start? with
  | none =>
    rw [h.unique (breadthFirst_nil hstart)] at hrow ⊢
    exact hrow
  | some start =>
    rw [h.unique (breadthFirst_order hstart)] at hrow ⊢
    dsimp only
    rw [Typing.noteBlocks_eq]
    exact hrow

/-- The names that are declared are those that no parameter has. -/
theorem isLocalName_iff (parameters : List Parameter) (name : String) :
    Typing.isLocalName (Typing.ofParameters parameters).parameters name = true ↔
      Text.isName name.toList = true ∧ name ∉ parameters.map Parameter.name := by
  have hnone : ((Typing.ofParameters parameters).parameters.get? name).isNone = true ↔
      name ∉ parameters.map Parameter.name := by
    rw [← Typing.has_ofParameters, Typing.Has, Typing.get?, Option.isNone_iff_eq_none, Option.not_isSome_iff_eq_none,
      Option.or_eq_none_iff]
    exact ⟨fun h => ⟨h, rfl⟩, fun h => h.1⟩
  rw [Typing.isLocalName, Bool.and_eq_true, hnone]

/-- The variables that are declared are the names, other than those of the parameters, to which live blocks assign, the
last clauses of counting loops left out. -/
theorem mem_locals_iff (g : Graph) (functions : FunctionTable) (parameters : List Parameter) (name : String) :
    name ∈ Bindings.names (g.typing functions parameters).locals ↔
      Text.isName name.toList = true ∧ name ∉ parameters.map Parameter.name ∧ g.Assigns Instruction.noted name := by
  obtain ⟨order, horder⟩ := g.exists_breadthFirst
  have hassigns : name ∈ (order.flatMap g.assignmentsAt).map Prod.fst ↔ g.Assigns Instruction.noted name := by
    rw [List.map_flatMap, List.mem_flatMap]
    exact exists_congr fun id => and_congr (horder.mem_iff id) (by rw [map_fst_assignmentsAt])
  rw [(g.typing_settled functions parameters horder).mem_names_iff, hassigns, isLocalName_iff, and_comm, and_assoc]

/-- **The variables that are declared for a chart**: names, each once, and none of them a parameter's.  They are just
the names, other than those of the parameters, to which live blocks assign, the last clauses of counting loops left
out.  There is one breadth-first order of the live blocks.  Along it the variables are declared where something is
first assigned to them, and each has the type of what it gets there, the parameters and the variables declared before
being known; whatever comes later leaves it this type. -/
theorem locals_firstAssigned (g : Graph) (functions : FunctionTable) (parameters : List Parameter) :
    (∀ name ∈ Bindings.names (g.typing functions parameters).locals,
      Text.isName name.toList = true ∧ name ∉ parameters.map Parameter.name) ∧
    (Bindings.names (g.typing functions parameters).locals).Nodup ∧
    (∀ name, name ∈ Bindings.names (g.typing functions parameters).locals ↔
      Text.isName name.toList = true ∧ name ∉ parameters.map Parameter.name ∧ g.Assigns Instruction.noted name) ∧
    ∃ order, g.BreadthFirst order ∧ (∀ other, g.BreadthFirst other → other = order) ∧
      Bindings.names (g.typing functions parameters).locals =
        (((order.flatMap g.assignmentsAt).map Prod.fst).filter fun name =>
          Text.isName name.toList && decide (name ∉ parameters.map Parameter.name)).eraseDups ∧
      ∀ before name type after, (g.typing functions parameters).locals = before ++ (name, type) :: after →
        (∃ earlier value later, order.flatMap g.assignmentsAt = earlier ++ (name, value) :: later ∧
          name ∉ earlier.map Prod.fst ∧
          type = value.type functions { Typing.ofParameters parameters with locals := before }) ∧
        (g.typing functions parameters).get? name = some type := by
  obtain ⟨order, horder⟩ := g.exists_breadthFirst
  have hsettled := g.typing_settled functions parameters horder
  have hnodup : (Bindings.names (g.typing functions parameters).locals).Nodup := by
    rw [hsettled.names_eq]
    exact nodup_eraseDups _
  have hmem := g.mem_locals_iff functions parameters
  refine ⟨fun name hname => ?_, hnodup, hmem, order, horder, fun other hother => hother.unique horder, ?_,
    fun before name type after hsplit => ⟨hsettled.type_eq before name type after hsplit, ?_⟩⟩
  · obtain ⟨hisName, hnew, -⟩ := (hmem name).mp hname
    exact ⟨hisName, hnew⟩
  · rw [hsettled.names_eq]
    congr 1
    refine List.filter_congr fun name _ => ?_
    rw [Bool.eq_iff_iff, isLocalName_iff, Bool.and_eq_true, decide_eq_true_iff]
  · have hlocal : name ∈ Bindings.names (g.typing functions parameters).locals := by
      rw [hsplit]
      exact List.mem_map_of_mem (List.mem_append_right before List.mem_cons_self)
    have hparameter := ((isLocalName_iff parameters name).mpr ⟨((hmem name).mp hlocal).1, ((hmem name).mp hlocal).2.1⟩)
    rw [Typing.isLocalName, Bool.and_eq_true, Option.isNone_iff_eq_none] at hparameter
    rw [Typing.get?, hsettled.parameters_eq, hparameter.2, Option.none_or, hsplit]
    rw [hsplit] at hnodup
    exact Bindings.get?_append_cons hnodup

/-- A decimal makes the variable behind it a decimal, and a later text changes nothing. -/
example :
    (({ blocks := [⟨0, .start, ""⟩, ⟨1, .assignment, "r = 2.5"⟩, ⟨2, .assignment, "t = r * 2"⟩,
          ⟨3, .assignment, "r = \"done\""⟩, ⟨4, .finish, ""⟩]
        edges := [⟨0, 1, none, none⟩, ⟨1, 2, none, none⟩, ⟨2, 3, none, none⟩, ⟨3, 4, none, none⟩] } : Graph).typing
      {} []).locals = [("r", .double), ("t", .double)] := by decide +kernel

end Graph

end Flowchart
