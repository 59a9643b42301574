import Flowchart.Proofs.Script.Trail

/-!
# The blocks of a script

A block of the chart does to the machine what its statement does to the store.

* `Same` — a store and the machine that holds it, inside given loops.  The statements keep to it
  (`Store.runClause_sim`, `Store.evaluateEach_sim`), as long as calls do.
* **`lands_simple`, `lands_test`, `lands_head`** — where control goes after a block.  The head of a
  loop is told from outside and from the end of the body by the loops around it, which decides between its
  clauses.
-/

namespace Flowchart

/-! ### Statements -/

/-- The machine holds the store, inside the given loops, and was not stopped. -/
def Same (loops : List BlockId) (e : Option Fault) (s : Store) (m : Machine) : Prop :=
  m = s.machine loops ∧ e ≠ some .cancelled

namespace Store

variable {loops : List BlockId} {env : Environment Store} {env' : Environment Machine}

theorem environment_sim {calls : String → List Value → Action Store Value}
    {calls' : String → List Value → Action Machine Value}
    (h : ∀ name arguments, Action.Sim (Same loops) (calls name arguments) (calls' name arguments)) :
    (environment calls).Sim (Same loops) (Machine.environment calls') where
  lookup := by
    rintro s _ ⟨rfl, -⟩ name
    rfl
  undefined := by
    rintro s _ ⟨rfl, -⟩ text
    exact ⟨rfl, by simp⟩
  call := h

theorem bind?_sim (name : Option String) (v : Value) :
    Action.Sim (Same loops) (bind? name v) (Machine.bind? name v) := by
  cases name with
  | none => exact Action.Sim.pure ()
  | some name =>
    rintro s _ ⟨rfl, he⟩
    exact .done ⟨rfl, he⟩

theorem print_sim (v : Value) : Action.Sim (Same loops) (print v) (Machine.print v) := by
  rintro s _ ⟨rfl, he⟩
  exact .done ⟨rfl, he⟩

theorem runClause_sim (h : env.Sim (Same loops) env') (clause : Text) :
    Action.Sim (Same loops) (runClause env clause) (Machine.runClause env' clause) := by
  unfold runClause Machine.runClause
  by_cases hempty : clause.isEmpty = true
  · rw [if_pos hempty, if_pos hempty]
    exact Action.Sim.pure ()
  rw [if_neg hempty, if_neg hempty]
  cases assignment? clause with
  | some a => exact (evaluate_sim h a.expression).bind fun v => bind?_sim (some (String.ofList a.target)) v
  | none => exact (evaluate_sim h clause).bind fun _ => Action.Sim.pure ()

theorem evaluateEach_sim (h : env.Sim (Same loops) env') (ts : List Text) :
    Action.Sim (Same loops) (evaluateEach env ts) (Machine.evaluateEach env' ts) := by
  induction ts with
  | nil => exact Action.Sim.pure []
  | cons t rest ih =>
    exact (evaluate_sim h t).bind fun v => ih.bind fun vs => Action.Sim.pure (v :: vs)

end Store

/-! ### Blocks -/

/-- A block that carries out a simulated action and then moves on lands where the value of the action leads. -/
theorem lands_of_sim {α : Type} {front : Action Store α} {front' : Action Machine α} {inside : List BlockId}
    {s : Store} (h : Action.Sim (Same inside) front front') (target : α → BlockId) (landing : α → List BlockId)
    {move : α → Action Machine Flow}
    (hmove : ∀ (a : α) (t : Store), move a (t.machine inside) = .done (.next (some (target a))) (t.machine (landing a))) :
    Lands target landing (front s) ((front' >>= move) (s.machine inside)) := by
  have hs := h s (s.machine inside) ⟨rfl, by simp⟩
  rw [Action.bind_apply]
  revert hs
  generalize front s = o
  generalize front' (s.machine inside) = o'
  intro hs
  cases hs with
  | done hsame =>
    obtain ⟨rfl, -⟩ := hsame
    exact hmove _ _
  | failed hsame =>
    obtain ⟨rfl, he⟩ := hsame
    exact ⟨fun hf => he (congrArg some hf), _, rfl⟩
  | unfinished => trivial

section Landing

variable {inside : List BlockId} {env : Environment Store} {env' : Environment Machine} {g : Graph} {b : Block}
  {s : Store}

/-- A label that cannot be read is reported as it is. -/
theorem execute_of_error {f : Fault} (h : b.instruction = .error f) (m : Machine) :
    Machine.execute env' g b m = .failed f m := by
  unfold Machine.execute
  rw [h]
  rfl

theorem execute_of_ok {i : Instruction} (h : b.instruction = .ok i) :
    Machine.execute env' g b = Machine.perform env' g b.id i := by
  unfold Machine.execute
  rw [h]
  rfl

/-- **A statement without branches** moves on to the one block that follows it. -/
theorem lands_simple {kind : Simple} {target : BlockId} (h : env.Sim (Same inside) env')
    (hkind : b.kind = kind.kind) (hinput : b.kind ≠ .input) (hleads : g.Leads b.id target) :
    Lands (fun _ => target) (fun _ => inside) ((Action.ofExcept b.instruction >>= Store.carryOut env) s)
      (Machine.execute env' g b (s.machine inside)) := by
  cases hi : b.instruction with
  | error f =>
    rw [execute_of_error hi]
    exact ⟨Block.instruction_error hi, inside, rfl⟩
  | ok i =>
    rw [execute_of_ok hi]
    have hik := Block.kind_of_instruction hi
    have hmove : ∀ (a : Unit) (t : Store),
        (pure (.next (g.successor? b.id)) : Action Machine Flow) (t.machine inside) =
          .done (.next (some target)) (t.machine inside) := by
      intro _ t
      rw [hleads.successor]
      rfl
    show Lands _ _ (Store.carryOut env i s) _
    cases i with
    | assign name expression =>
      have hsim : Action.Sim (Same inside) (Store.carryOut env (.assign name expression))
          (do
            let v ← evaluate env' expression
            Machine.bind? name v) :=
        (evaluate_sim h expression).bind fun v => Store.bind?_sim name v
      have hland := lands_of_sim (s := s) hsim (fun _ => target) (fun _ => inside) hmove
      rw [bind_assoc] at hland
      exact hland
    | output expression =>
      have hsim : Action.Sim (Same inside) (Store.carryOut env (.output expression))
          (do
            let v ← evaluate env' expression
            Machine.print v) :=
        (evaluate_sim h expression).bind fun v => Store.print_sim v
      have hland := lands_of_sim (s := s) hsim (fun _ => target) (fun _ => inside) hmove
      rw [bind_assoc] at hland
      exact hland
    | call name function arguments =>
      have hsim : Action.Sim (Same inside) (Store.carryOut env (.call name function arguments))
          (do
            let values ← Machine.evaluateEach env' arguments
            let v ← env'.call function values
            Machine.bind? name v) :=
        (Store.evaluateEach_sim h arguments).bind fun values =>
          (h.call function values).bind fun v => Store.bind?_sim name v
      have hland := lands_of_sim (s := s) hsim (fun _ => target) (fun _ => inside) hmove
      simp only [bind_assoc] at hland
      exact hland
    | input names => exact absurd hik.symm hinput
    | start | finish | merge | choose _ | whileLoop _ | forLoop _ _ _ | doWhile _ =>
      rw [hkind] at hik
      cases kind <;> cases hik

/-- A merge block only moves on, and so does a start block. -/
theorem execute_merge {target : BlockId} (hkind : b.kind = .merge ∨ b.kind = .start) (hleads : g.Leads b.id target)
    (m : Machine) : Machine.execute env' g b m = .done (.next (some target)) m := by
  have hi : b.instruction = .ok .merge ∨ b.instruction = .ok .start := by
    unfold Block.instruction
    rcases hkind with hkind | hkind
    · rw [hkind]
      exact .inl rfl
    · rw [hkind]
      exact .inr rfl
  have hmove : (pure (.next (g.successor? b.id)) : Action Machine Flow) m = .done (.next (some target)) m := by
    rw [hleads.successor]
    rfl
  rcases hi with hi | hi
  · rw [execute_of_ok hi]
    exact hmove
  · rw [execute_of_ok hi]
    exact hmove

/-- The edge of the outcome is there, so it is taken. -/
theorem afterCondition_of_forks {id yes no : BlockId} (h : g.Forks id yes no) (outcome : Bool) :
    g.afterCondition id outcome = some (if outcome then yes else no) := by
  unfold Graph.afterCondition
  cases outcome with
  | true =>
    show (g.branchTarget? id .whenTrue).or _ = _
    rw [h.whenTrue]
    rfl
  | false =>
    show (g.branchTarget? id .whenFalse).or _ = _
    rw [h.whenFalse]
    rfl

/-- **A choice, or the test at the end of a loop**, moves on along the edge of its outcome. -/
theorem lands_test {yes no : BlockId} (h : env.Sim (Same inside) env')
    (hkind : b.kind = .conditional ∨ b.kind = .doWhile) (hforks : g.Forks b.id yes no) :
    Lands (fun outcome => if outcome then yes else no) (fun _ => inside) (Script.test env b s)
      (Machine.execute env' g b (s.machine inside)) := by
  unfold Script.test
  cases hi : b.instruction with
  | error f =>
    rw [execute_of_error hi]
    exact ⟨Block.instruction_error hi, inside, rfl⟩
  | ok i =>
    rw [execute_of_ok hi]
    have hik := Block.kind_of_instruction hi
    have hmove : ∀ (outcome : Bool) (t : Store),
        (pure (.next (g.afterCondition b.id outcome)) : Action Machine Flow) (t.machine inside) =
          .done (.next (some (if outcome then yes else no))) (t.machine inside) := by
      intro outcome t
      rw [afterCondition_of_forks hforks]
      rfl
    have hland := lands_of_sim (s := s) (evaluateCondition_sim h i.condition)
      (fun outcome => if outcome then yes else no) (fun _ => inside) hmove
    show Lands _ _ (evaluateCondition env i.condition s) _
    cases i with
    | choose condition => exact hland
    | doWhile condition => exact hland
    | start | finish | merge | assign _ _ | input _ | output _ | whileLoop _ | forLoop _ _ _ | call _ _ _ =>
      rcases hkind with hkind | hkind <;> rw [hkind] at hik <;> cases hik

/-! ### Heads of loops -/

/-- The loops around a head: the ones around the loop, and the loop itself when control comes from its body. -/
def around (head : BlockId) (loops : List BlockId) : (again : Bool) → List BlockId
  | true => head :: loops
  | false => loops

/-- **Testing a head tracks its loop**: the loop is on the list if and only if its body is entered. -/
theorem trackLoop_around {head : BlockId} {loops : List BlockId} (h : head ∉ loops) (again outcome : Bool) :
    trackLoop head outcome (around head loops again) = around head loops outcome := by
  have hc : loops.contains head = false := by simpa using h
  have hc' : (head :: loops).contains head = true := by simp
  have hdrop : (head :: loops).dropWhile (· != head) = head :: loops := List.dropWhile_cons_of_neg (by simp)
  cases again with
  | true =>
    show trackLoop head outcome (head :: loops) = around head loops outcome
    unfold trackLoop
    rw [hc', hdrop]
    cases outcome <;> rfl
  | false =>
    show trackLoop head outcome loops = around head loops outcome
    unfold trackLoop
    rw [hc]
    cases outcome <;> rfl

/-- What the head of a loop does to a store: the clause that is due, and then the test. -/
def headAction (env : Environment Store) (i : Instruction) (again : Bool) : Action Store Bool := do
  Store.runClause env (if again then i.increment else i.init)
  evaluateCondition env i.condition

/-- A loop that only tests is a counting loop with empty clauses. -/
theorem perform_head (id : BlockId) {i : Instruction} (hi : i.kind = .loop ∨ i.kind = .forLoop) :
    Machine.perform env' g id i = (do
      let again ← Machine.inLoop id
      Machine.runClause env' (if again then i.increment else i.init)
      let outcome ← evaluateCondition env' i.condition
      Machine.noteLoop id outcome
      pure (.next (g.afterCondition id outcome))) := by
  have hnothing : ∀ again : Bool, Machine.runClause env' (if again then [] else []) = pure () := by
    intro again
    cases again <;> rfl
  cases i with
  | forLoop init condition increment => rfl
  | whileLoop condition =>
    show Machine.perform env' g id (.whileLoop condition) = do
      let again ← Machine.inLoop id
      Machine.runClause env' (if again then [] else [])
      let outcome ← evaluateCondition env' condition
      Machine.noteLoop id outcome
      pure (.next (g.afterCondition id outcome))
    simp only [hnothing]
    rfl
  | start | finish | merge | assign _ _ | input _ | output _ | choose _ | doWhile _ | call _ _ _ =>
    rcases hi with hi | hi <;> cases hi

/-- **The head of a loop** runs the clause that is due, tests, and moves on into the body or behind the loop. -/
theorem lands_head {yes no : BlockId} {loops : List BlockId} {i : Instruction} (again : Bool)
    (h : env.Sim (Same (around b.id loops again)) env') (hb : b.id ∉ loops) (hi : b.instruction = .ok i)
    (hkind : b.kind = .loop ∨ b.kind = .forLoop) (hforks : g.Forks b.id yes no) :
    Lands (fun outcome => if outcome then yes else no) (around b.id loops) (headAction env i again s)
      (Machine.execute env' g b (s.machine (around b.id loops again))) := by
  have hik := Block.kind_of_instruction hi
  rw [execute_of_ok hi, perform_head b.id (by rw [hik]; exact hkind)]
  -- Whether the loop is on the list says where control comes from.
  have hin : Machine.inLoop b.id (s.machine (around b.id loops again)) =
      .done again (s.machine (around b.id loops again)) := by
    have hc : (around b.id loops again).contains b.id = again := by
      cases again with
      | true => simp [around]
      | false => simpa [around] using hb
    show Outcome.done ((around b.id loops again).contains b.id) _ = _
    rw [hc]
  have hfront : Action.Sim (Same (around b.id loops again)) (headAction env i again)
      (do
        Machine.runClause env' (if again then i.increment else i.init)
        evaluateCondition env' i.condition) :=
    (Store.runClause_sim h _).bind fun _ => evaluateCondition_sim h i.condition
  have hmove : ∀ (outcome : Bool) (t : Store),
      (do
        Machine.noteLoop b.id outcome
        pure (.next (g.afterCondition b.id outcome)) : Action Machine Flow)
          (t.machine (around b.id loops again)) =
        .done (.next (some (if outcome then yes else no))) (t.machine (around b.id loops outcome)) := by
    intro outcome t
    rw [afterCondition_of_forks hforks, ← trackLoop_around hb again outcome]
    rfl
  have hland := lands_of_sim (s := s) hfront (fun outcome => if outcome then yes else no) (around b.id loops) hmove
  rw [bind_assoc] at hland
  rw [Action.bind_apply, hin]
  exact hland

end Landing

end Flowchart
