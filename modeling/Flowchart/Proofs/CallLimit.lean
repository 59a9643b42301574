import Flowchart.Proofs.CallDepth
import Flowchart.Proofs.Session.Coherence

/-!
# The limit on nested calls

A call that is nested too deeply fails.  The limit does nothing else: where it is not exceeded, a larger one makes
no difference.  For this the fault must reach the outside wherever it is raised, whatever the argument, the operand
or the clause in which the call stands.

* `Outcome.hideDepth`, `Action.hideDepth` — an outcome in which an exceeded limit counts as no outcome.  It passes
  through sequences (`Action.hideDepth_bind`).
* `evaluate_hideDepth`, `evaluateCondition_hideDepth`, `Machine.execute_hideDepth`, `Machine.runBody_hideDepth` —
  hiding the fault in the calls hides it in whatever makes the calls.
* **`Machine.call_sim_of_limit_le`**, **`Machine.execute_of_limit_le`** — calls and blocks with a larger limit.
* **`Session.depth_of_moments`** — in every run the frames are as many as the calls that are going on and stay
  within the limit, and the limit changes nothing else.
-/

namespace Flowchart

variable {σ α β : Type}

/-! ### Outcomes without the limit -/

/-- The fault of an exceeded limit. -/
def Fault.isDepth : Fault → Bool
  | .callDepthExceeded _ _ => true
  | _ => false

/-- An outcome in which an exceeded limit counts as no outcome. -/
def Outcome.hideDepth : Outcome σ α → Outcome σ α
  | .done a s => .done a s
  | .failed f s => if f.isDepth then .unfinished else .failed f s
  | .unfinished => .unfinished

theorem Outcome.hideDepth_failed (f : Fault) (s : σ) :
    (Outcome.failed f s : Outcome σ α).hideDepth = if f.isDepth then .unfinished else .failed f s := rfl

/-- Going on after an outcome, an exceeded limit is not forgotten. -/
theorem Outcome.hideDepth_andThen (o : Outcome σ α) (next : α → Action σ β) :
    (o.andThen next).hideDepth = o.hideDepth.andThen fun a s => (next a s).hideDepth := by
  cases o with
  | done a s => rfl
  | failed f s =>
    show (Outcome.failed f s).hideDepth = (Outcome.failed f s).hideDepth.andThen _
    rw [hideDepth_failed, hideDepth_failed]
    split <;> rfl
  | unfinished => rfl

/-- An outcome in which the limit was not exceeded stays as it is. -/
theorem Outcome.hideDepth_of_not_exceeded {o : Outcome σ α}
    (h : ∀ name limit s, o ≠ .failed (.callDepthExceeded name limit) s) : o.hideDepth = o := by
  cases o with
  | done a s => rfl
  | failed f s =>
    refine if_neg fun hf => ?_
    unfold Fault.isDepth at hf
    split at hf
    · next name limit => exact h name limit s rfl
    · cases hf
  | unfinished => rfl

namespace Action

/-- An action in which an exceeded limit counts as no outcome. -/
def hideDepth (act : Action σ α) : Action σ α := fun s => (act s).hideDepth

/-- **An exceeded limit passes through sequences.** -/
theorem hideDepth_bind (act : Action σ α) (next : α → Action σ β) :
    (act >>= next).hideDepth = act.hideDepth >>= fun a => (next a).hideDepth :=
  funext fun s => Outcome.hideDepth_andThen (act s) next

theorem hideDepth_fail {f : Fault} (h : f.isDepth = false) : (fail f : Action σ α).hideDepth = fail f :=
  funext fun s => (Outcome.hideDepth_failed f s).trans (if_neg (by rw [h]; exact Bool.false_ne_true))

/-- What goes on alike after an action, whatever its value, may be taken out of it. -/
theorem hideDepth_bind_of {act act' : Action σ α} {next next' : α → Action σ β} (h : act.hideDepth = act')
    (hnext : ∀ a, (next a).hideDepth = next' a) : (act >>= next).hideDepth = act' >>= next' := by
  rw [hideDepth_bind, h]
  exact congrArg (act' >>= ·) (funext hnext)

end Action

/-- An environment in whose calls an exceeded limit counts as no outcome. -/
def Environment.hideDepth (env : Environment σ) : Environment σ where
  lookup := env.lookup
  call name arguments := (env.call name arguments).hideDepth

/-! ### Nothing swallows an exceeded limit -/

section Evaluation

variable (env : Environment σ)

theorem Environment.variableValue_hideDepth (name : String) :
    (env.variableValue name).hideDepth = env.hideDepth.variableValue name := by
  funext s
  show Outcome.hideDepth _ = _
  unfold Environment.variableValue Environment.hideDepth
  dsimp only
  cases env.lookup s name <;> rfl

mutual

/-- Hiding the fault in the calls hides it in an expression. -/
theorem Expression.eval_hideDepth : ∀ e : Expression, (e.eval env).hideDepth = e.eval env.hideDepth
  | .literal v => by
    rw [Expression.eval, Expression.eval]
    rfl
  | .call name arguments => by
    rw [Expression.eval, Expression.eval]
    exact Action.hideDepth_bind_of (Expression.evalAll_hideDepth arguments) fun _ => rfl
  | .arithmetic source => by
    rw [Expression.eval, Expression.eval]
    rfl
  | .named name => by
    rw [Expression.eval, Expression.eval]
    exact env.variableValue_hideDepth name
  | .unreadable source => by
    rw [Expression.eval, Expression.eval]
    exact Action.hideDepth_fail rfl

theorem Expression.evalAll_hideDepth :
    ∀ es : List Expression, (Expression.evalAll env es).hideDepth = Expression.evalAll env.hideDepth es
  | [] => by
    rw [Expression.evalAll, Expression.evalAll]
    rfl
  | e :: rest => by
    rw [Expression.evalAll, Expression.evalAll]
    exact Action.hideDepth_bind_of (Expression.eval_hideDepth e) fun _ =>
      Action.hideDepth_bind_of (Expression.evalAll_hideDepth rest) fun _ => rfl

end

theorem evaluate_hideDepth (t : Text) : (evaluate env t).hideDepth = evaluate env.hideDepth t :=
  Expression.eval_hideDepth env (Expression.read t)

/-- Hiding the fault in the calls hides it in a condition, by induction on the condition: an operand that is
skipped raises no fault, and one that is evaluated passes its fault on. -/
theorem Condition.eval_hideDepth (c : Condition) : (c.eval env).hideDepth = c.eval env.hideDepth := by
  induction c with
  | both left right ihl ihr =>
    refine Action.hideDepth_bind_of ihl fun a => ?_
    cases a with
    | true => exact ihr
    | false => rfl
  | either left right ihl ihr =>
    refine Action.hideDepth_bind_of ihl fun a => ?_
    cases a with
    | true => rfl
    | false => exact ihr
  | negation operand ih => exact Action.hideDepth_bind_of ih fun _ => rfl
  | compared comparator left right =>
    exact Action.hideDepth_bind_of (Expression.eval_hideDepth env left) fun _ =>
      Action.hideDepth_bind_of (Expression.eval_hideDepth env right) fun _ => rfl
  | holds value => exact Action.hideDepth_bind_of (Expression.eval_hideDepth env value) fun _ => rfl

theorem evaluateCondition_hideDepth (t : Text) :
    (evaluateCondition env t).hideDepth = evaluateCondition env.hideDepth t :=
  Condition.eval_hideDepth env (Condition.read t)

end Evaluation

namespace Machine

section Blocks

variable (env : Environment Machine)

theorem bind?_hideDepth (name : Option String) (v : Value) : (bind? name v).hideDepth = bind? name v := by
  cases name <;> rfl

theorem runClause_hideDepth (clause : Text) : (runClause env clause).hideDepth = runClause env.hideDepth clause := by
  unfold runClause
  split
  · rfl
  · split
    · exact Action.hideDepth_bind_of (evaluate_hideDepth env _) fun _ => rfl
    · exact Action.hideDepth_bind_of (evaluate_hideDepth env _) fun _ => rfl

theorem evaluateEach_hideDepth (ts : List Text) :
    (evaluateEach env ts).hideDepth = evaluateEach env.hideDepth ts := by
  induction ts with
  | nil => rfl
  | cons t rest ih =>
    exact Action.hideDepth_bind_of (evaluate_hideDepth env t) fun _ => Action.hideDepth_bind_of ih fun _ => rfl

theorem perform_hideDepth (g : Graph) (id : BlockId) (i : Instruction) :
    (perform env g id i).hideDepth = perform env.hideDepth g id i := by
  cases i with
  | start => rfl
  | finish => rfl
  | merge => rfl
  | assign target expression =>
    exact Action.hideDepth_bind_of (evaluate_hideDepth env expression) fun v =>
      Action.hideDepth_bind_of (bind?_hideDepth target v) fun _ => rfl
  | input names => rfl
  | output expression =>
    exact Action.hideDepth_bind_of (evaluate_hideDepth env expression) fun _ => rfl
  | choose condition => exact Action.hideDepth_bind_of (evaluateCondition_hideDepth env condition) fun _ => rfl
  | doWhile condition => exact Action.hideDepth_bind_of (evaluateCondition_hideDepth env condition) fun _ => rfl
  | whileLoop condition =>
    exact Action.hideDepth_bind_of (evaluateCondition_hideDepth env condition) fun _ => rfl
  | forLoop init condition increment =>
    have hloop : (inLoop id).hideDepth = inLoop id := rfl
    exact Action.hideDepth_bind_of hloop fun again =>
      Action.hideDepth_bind_of (runClause_hideDepth env (if again then increment else init)) fun _ =>
        Action.hideDepth_bind_of (evaluateCondition_hideDepth env condition) fun _ => rfl
  | call target function arguments =>
    exact Action.hideDepth_bind_of (evaluateEach_hideDepth env arguments) fun _ =>
      Action.hideDepth_bind_of rfl fun v => Action.hideDepth_bind_of (bind?_hideDepth target v) fun _ => rfl

/-- **Nothing that a block does swallows the fault**: hiding it in the calls hides it in the block. -/
theorem execute_hideDepth (g : Graph) (b : Block) : (execute env g b).hideDepth = execute env.hideDepth g b := by
  refine Action.hideDepth_bind_of ?_ fun i => perform_hideDepth env g b.id i
  cases hb : b.instruction with
  | ok i => rfl
  | error f =>
    obtain ⟨reason, rfl⟩ := Block.instruction_error_eq hb
    exact Action.hideDepth_fail rfl

end Blocks

/-- Hiding the fault in the blocks of a body hides it in the body, by induction on the allowance. -/
theorem runBody_hideDepth (step : Block → Action Machine Flow) (name : String) (g : Graph) (finish : BlockId)
    (allowance : Nat) (id : Option BlockId) (m : Machine) :
    (runBody step name g finish allowance id m).hideDepth =
      runBody (fun b => (step b).hideDepth) name g finish allowance id m := by
  induction allowance generalizing id m with
  | zero => rfl
  | succ allowance ih =>
    cases id with
    | none => rfl
    | some id =>
      simp only [runBody]
      by_cases hfin : id = finish
      · rw [if_pos hfin, if_pos hfin]
        rfl
      rw [if_neg hfin, if_neg hfin]
      by_cases hs : m.poll.stopRequested = true
      · rw [if_pos hs, if_pos hs]
        rfl
      rw [if_neg hs, if_neg hs]
      cases g.block? id with
      | none => rfl
      | some b =>
        have hstep : (step b).hideDepth m.poll = (step b m.poll).hideDepth := rfl
        dsimp only
        rw [hstep]
        generalize step b m.poll = o
        cases o with
        | done flow n =>
          cases flow with
          | next target => exact ih target n
          | awaitInput names => rfl
        | failed f n =>
          rw [Outcome.hideDepth_failed, Outcome.hideDepth_failed]
          split <;> rfl
        | unfinished => rfl

theorem returnFrom_hideDepth (f : Function) (loops : List BlockId) (o : Outcome Machine Unit) :
    (returnFrom f loops o).hideDepth = returnFrom f loops o.hideDepth := by
  cases o with
  | done u m => rfl
  | failed fault m =>
    show (Outcome.failed fault (m.leave loops)).hideDepth = returnFrom f loops (Outcome.failed fault m).hideDepth
    rw [Outcome.hideDepth_failed, Outcome.hideDepth_failed]
    split <;> rfl
  | unfinished => rfl

/-! ### A larger limit -/

/-- With more room a call is refused for the same reason, unless the reason was the room. -/
theorem admission_error_of_le {p : Program} {limit limit' room room' : Nat} (h : room ≤ room') {name : String}
    {arguments : List Value} {f : Fault} (ha : admission p limit room name arguments = .error f)
    (hf : f.isDepth = false) : admission p limit' room' name arguments = .error f := by
  unfold admission at ha ⊢
  cases hfun : p.functions.get? name with
  | none =>
    rw [hfun] at ha
    exact ha
  | some fn =>
    rw [hfun] at ha
    dsimp only at ha ⊢
    by_cases hlen : arguments.length ≠ fn.parameters.length
    · rw [if_pos hlen] at ha ⊢
      exact ha
    rw [if_neg hlen] at ha ⊢
    cases room with
    | zero =>
      cases ha
      cases hf
    | succ room =>
      obtain ⟨more, rfl⟩ : ∃ more, room' = more + 1 := ⟨room' - 1, by omega⟩
      dsimp only at ha ⊢
      split at ha
      · cases ha
      · exact ha

/-- With more room a call that is admitted is admitted all the same, and has more room inside. -/
theorem admission_ok_of_le {p : Program} {limit room room' : Nat} (limit' : Nat) (h : room ≤ room') {name : String}
    {arguments : List Value} {a : Admission} (ha : admission p limit room name arguments = .ok a) :
    ∃ more, a.room ≤ more ∧ admission p limit' room' name arguments = .ok { a with room := more } := by
  unfold admission at ha ⊢
  cases hfun : p.functions.get? name with
  | none =>
    rw [hfun] at ha
    cases ha
  | some fn =>
    rw [hfun] at ha
    dsimp only at ha ⊢
    by_cases hlen : arguments.length ≠ fn.parameters.length
    · rw [if_pos hlen] at ha
      cases ha
    rw [if_neg hlen] at ha ⊢
    cases room with
    | zero => cases ha
    | succ room =>
      obtain ⟨more, rfl⟩ : ∃ more, room' = more + 1 := ⟨room' - 1, by omega⟩
      dsimp only at ha ⊢
      split at ha
      · next start finish hstart hfinish =>
        cases ha
        exact ⟨more, Nat.le_of_succ_le_succ h, rfl⟩
      · cases ha

/-- **A call in which the limit is not exceeded ends alike with more room**, by induction on the room. -/
theorem call_sim_of_limit_le (p : Program) (limit limit' allowance : Nat) {room room' : Nat} (h : room ≤ room')
    (name : String) (arguments : List Value) :
    Action.Sim (fun _ => Eq) (call p limit allowance room name arguments).hideDepth
      (call p limit' allowance room' name arguments) := by
  induction room using Nat.strongRecOn generalizing room' name arguments with
  | ind room ih =>
    rintro m _ rfl
    show (call p limit allowance room name arguments m).hideDepth.Sim _ _
    rw [call_eq, call_eq]
    cases ha : admission p limit room name arguments with
    | error f =>
      dsimp only
      rw [Outcome.hideDepth_failed]
      cases hf : f.isDepth with
      | true => exact .unfinished
      | false =>
        rw [admission_error_of_le h ha hf]
        exact .failed rfl
    | ok a =>
      obtain ⟨more, hmore, ha'⟩ := admission_ok_of_le limit' h ha
      rw [ha']
      dsimp only
      unfold bodyOutcome
      rw [returnFrom_hideDepth, runBody_hideDepth]
      have henv := environment_sim_eq fun name' arguments' =>
        ih a.room (room_lt_of_admission ha) hmore name' arguments'
      refine returnFrom_sim a.function m.loops
        (runBody_sim respected_eq (fun _ _ _ hm => hm) (fun b => ?_) name _ a.finish (Nat.le_refl _) _ rfl)
      rw [execute_hideDepth]
      exact execute_sim respected_eq henv a.function.body b fun _ _ _ _ hm => hm

/-- **A block in which the limit is not exceeded has the same outcome with a larger limit.** -/
theorem execute_of_limit_le (p : Program) {limit limit' : Nat} (h : limit ≤ limit') (allowance depth : Nat)
    (g : Graph) (b : Block) (m : Machine)
    (hdone : execute (environment (call p limit allowance (limit - depth))) g b m ≠ .unfinished)
    (hdepth : ∀ name n m', execute (environment (call p limit allowance (limit - depth))) g b m ≠
      .failed (.callDepthExceeded name n) m') :
    execute (environment (call p limit' allowance (limit' - depth))) g b m =
      execute (environment (call p limit allowance (limit - depth))) g b m := by
  have henv := environment_sim_eq
    (call_sim_of_limit_le p limit limit' allowance (Nat.sub_le_sub_right h depth))
  have hsim := execute_sim respected_eq henv g b (fun _ _ _ _ hm => hm) m m rfl
  change (execute (environment (call p limit allowance (limit - depth))).hideDepth g b m).Sim _ _ at hsim
  rw [← execute_hideDepth] at hsim
  have hhide := Outcome.hideDepth_of_not_exceeded hdepth
  change (execute (environment (call p limit allowance (limit - depth))) g b m).hideDepth.Sim _ _ at hsim
  rw [hhide] at hsim
  exact Outcome.eq_of_sim hsim hdone

end Machine

namespace Session

/-- **The limit on nested calls.**  In every run, whatever was done with the session since it was opened: between
two blocks of the main chart there is no frame, and while a block is executed, at the beginning and at the end of
every call and of every block of a body, the frames are as many as the calls that are going on, and not more than
the limit allows; so an alarm that watches over this is never raised.  And a block of any chart, executed in any
machine at any depth, that comes to its end without exceeding a limit has the same outcome with every larger limit:
the same flow or fault, and the same variables, output and loops. -/
theorem depth_of_moments {setup : Setup} {marks : List Mark} {s : Session} (h : Moments (new setup) marks s) :
    (s.machine.scope.depth = 0 ∧ ∀ alarm allowance b,
      Machine.watchedMain alarm setup.program setup.callLimit allowance b s.machine =
        Machine.executeMain setup.program setup.callLimit allowance b s.machine) ∧
    ∀ (limit limit' allowance depth : Nat) (g : Graph) (b : Block) (m : Machine), limit ≤ limit' →
      let outcome n :=
        Machine.execute (Machine.environment (Machine.call setup.program n allowance (n - depth))) g b m
      outcome limit ≠ .unfinished →
      (∀ name n m', outcome limit ≠ .failed (.callDepthExceeded name n) m') →
      outcome limit' = outcome limit := by
  have hframes : s.machine.scope.depth = 0 := by
    show s.machine.scope.frames.length = 0
    rw [(h.coherent (coherent_new setup)).grounded.frames_eq]
    rfl
  refine ⟨⟨hframes, fun alarm allowance b => Machine.watchedMain_eq alarm _ _ allowance b hframes⟩, ?_⟩
  intro limit limit' allowance depth g b m hle outcome hdone hdepth
  exact Machine.execute_of_limit_le setup.program hle allowance depth g b m hdone hdepth

/-- A chart that calls a function that calls another one, with a limit that just allows it. -/
def callingTwice : Setup :=
  { callLimit := 2
    program :=
      { main :=
          { blocks := [⟨0, .start, ""⟩, ⟨1, .functionCall, "x = outer()"⟩, ⟨2, .finish, ""⟩]
            edges := [⟨0, 1, none, none⟩, ⟨1, 2, none, none⟩] }
        functions := FunctionTable.ofList [
          { name := "outer", returnType := .int, returnVariable := some "r",
            body :=
              { blocks := [⟨0, .start, ""⟩, ⟨1, .assignment, "r = inner()"⟩, ⟨2, .finish, ""⟩]
                edges := [⟨0, 1, none, none⟩, ⟨1, 2, none, none⟩] } },
          { name := "inner", returnType := .int, returnVariable := some "r",
            body :=
              { blocks := [⟨0, .start, ""⟩, ⟨1, .assignment, "r = 7"⟩, ⟨2, .finish, ""⟩]
                edges := [⟨0, 1, none, none⟩, ⟨1, 2, none, none⟩] } }] } }

/-- The block of the chart that calls. -/
def callingOuter : Block := ⟨1, .functionCall, "x = outer()"⟩

/-- The machine after the calls. -/
def calledTwice : Machine := { scope := { globals := [("x", .int 7)] } }

/-- The calls go through under a watch, and with any larger limit. -/
theorem depth_of_moments_callingTwice :
    ∃ marks s, Moments (new callingTwice) marks s ∧ s.state = .stepping ∧
      (∀ alarm, Machine.watchedMain alarm callingTwice.program 2 9 callingOuter s.machine =
        .done (.next (some 2)) calledTwice) ∧
      ∀ limit, 2 ≤ limit →
        Machine.execute (Machine.environment (Machine.call callingTwice.program limit 9 limit))
          callingTwice.program.main callingOuter {} = .done (.next (some 2)) calledTwice := by
  have hrow : Moments (new callingTwice) [.begun] { (new callingTwice).reset with state := .stepping } :=
    (Moment.begins (s := new callingTwice) (Option.some_ne_none 0) (.inr rfl)).single
  have hdone : Machine.executeMain callingTwice.program 2 9 callingOuter {} =
      .done (.next (some 2)) calledTwice := by cbv
  obtain ⟨⟨-, hwatch⟩, hlarger⟩ := depth_of_moments hrow
  refine ⟨_, _, hrow, rfl, fun alarm => (hwatch alarm 9 callingOuter).trans hdone, fun limit hle => ?_⟩
  have hsame := hlarger 2 limit 9 0 callingTwice.program.main callingOuter {} hle
    (fun h => by cases hdone.symm.trans h) (fun _ _ _ h => by cases hdone.symm.trans h)
  exact hsame.trans hdone

/-- With a smaller limit the inner call fails. -/
example : Machine.executeMain callingTwice.program 1 9 callingOuter {} =
    .failed (.callDepthExceeded "inner" 1) {} := by cbv

end Session

end Flowchart
