import Flowchart.Proofs.Calls
import Flowchart.Proofs.Script.Course
import Flowchart.Session.Operations
import Mathlib

/-!
# Structured programs do what they mean

A program whose charts show scripts is run by a machine that knows nothing of scripts.  It ends as the scripts
say it should: with the same output, the same variables and the same error, if any.

* `Plan.allowance` — an allowance that is enough for every function and for the main chart.
* **`Plan.call_sim`** — calls of functions do what their scripts mean, by induction on the room for nested calls.
* `Outcome.Finishes` — the state and the fault, if any, with which an outcome is finished.
* `Session.runLoop_of_trail` — the main chart, block by block, under the control of a session.
* **`Session.start_refines`** — a run of a planned program ends as the plan does.
-/

namespace Flowchart

/-! ### Functions -/

namespace Plan

/-- An allowance of blocks within which every function of a planned program comes to its end, and so does its
main chart, if no loop takes more rounds each time it is entered. -/
def allowance (plan : Plan) (functions : FunctionTable) (rounds : Nat) : Nat :=
  plan.main.script.cost rounds +
    (functions.places.names.map fun name => (plan.body name).script.cost rounds).sum + 3

theorem cost_le_allowance (plan : Plan) {functions : FunctionTable} {name : String} {f : Function}
    (h : functions.get? name = some f) (rounds : Nat) :
    (plan.body name).script.cost rounds + 2 ≤ plan.allowance functions rounds := by
  have hbound : (functions.places.get? name).isSome := by
    cases hplace : functions.places.get? name with
    | some place => rfl
    | none =>
      unfold FunctionTable.get? at h
      rw [hplace] at h
      cases h
  have hmem : (plan.body name).script.cost rounds ∈
      functions.places.names.map fun name => (plan.body name).script.cost rounds :=
    List.mem_map_of_mem ((Bindings.isSome_get?_iff name functions.places).mp hbound)
  have hsum := List.le_sum_of_mem hmem
  unfold allowance
  omega

/-- Returning from a body and returning from its script is the same. -/
theorem returnFrom_sim (f : Function) (loops : List BlockId) {o : Outcome Store Unit} {o' : Outcome Machine Unit}
    (h : o.Sim Machine.Shares o') : (Store.returnFrom f o).Sim (Same loops) (Machine.returnFrom f loops o') := by
  cases h with
  | done hshares =>
    obtain ⟨⟨inside, rfl⟩, he⟩ := hshares
    exact .done ⟨rfl, he⟩
  | failed hshares =>
    obtain ⟨⟨inside, rfl⟩, he⟩ := hshares
    exact .failed ⟨rfl, he⟩
  | unfinished => exact .unfinished

/-- **A planned call is the check that the machine makes, then the script in a frame of its own, then the return
to the caller.**  The charts of planned functions are complete, so the check does not fail for want of a start
block or an end block. -/
theorem call_eq {p : Program} {plan : Plan} (hp : p.Follows plan) (limit rounds room : Nat) (name : String)
    (arguments : List Value) (s : Store) :
    plan.call p.functions limit rounds room name arguments s =
      match Machine.admission p limit room name arguments with
      | .error f => .failed f s
      | .ok a =>
        Store.returnFrom a.function
          ((plan.body name).script.run (Store.environment (plan.call p.functions limit rounds a.room)) rounds
            (s.enter (a.function.frame name arguments))) := by
  rw [call.eq_def]
  dsimp only
  unfold Machine.admission
  cases hf : p.functions.get? name with
  | none => rfl
  | some f =>
    dsimp only
    by_cases hlen : arguments.length ≠ f.parameters.length
    · rw [if_pos hlen, if_pos hlen]
    rw [if_neg hlen, if_neg hlen]
    cases room with
    | zero => rfl
    | succ room =>
      have hshows := hp.body name f hf
      rw [hshows.start?_eq, hshows.finish?_eq]

/-- The faults of the check are not requests to stop. -/
theorem admission_error {p : Program} {limit room : Nat} {name : String} {arguments : List Value} {f : Fault}
    (h : Machine.admission p limit room name arguments = .error f) : f ≠ .cancelled := by
  unfold Machine.admission at h
  split at h
  · cases h
    exact Fault.noConfusion
  · split at h
    · cases h
      exact Fault.noConfusion
    · split at h
      · cases h
        exact Fault.noConfusion
      · split at h
        · cases h
        · cases h
          exact Fault.noConfusion

/-- What is admitted is the function of that name, from the first start block to the first end block. -/
theorem admission_ok {p : Program} {limit room : Nat} {name : String} {arguments : List Value}
    {a : Machine.Admission} (h : Machine.admission p limit room name arguments = .ok a) :
    p.functions.get? name = some a.function ∧ a.function.body.start? = some a.start ∧
      a.function.body.finish? = some a.finish := by
  unfold Machine.admission at h
  split at h
  · cases h
  · next f hf =>
    split at h
    · cases h
    · split at h
      · cases h
      · split at h
        · next start finish hstart hfinish =>
          cases h
          exact ⟨hf, hstart, hfinish⟩
        · cases h

/-- **A call of a function does what its script means**, wherever it stands.  The induction is on the room for
nested calls: the blocks of the body may call with less of it. -/
theorem call_sim {p : Program} {plan : Plan} (hp : p.Follows plan) (hquiet : plan.AsksNothing)
    (limit rounds : Nat) {allowance : Nat} (hle : plan.allowance p.functions rounds ≤ allowance) (room : Nat)
    (name : String) (arguments : List Value) (loops : List BlockId) :
    Action.Sim (Same loops) (plan.call p.functions limit rounds room name arguments)
      (Machine.call p limit allowance room name arguments) := by
  induction room using Nat.strongRecOn generalizing name arguments loops with
  | ind room ih =>
    rintro s _ ⟨rfl, -⟩
    rw [call_eq hp, Machine.call_eq]
    cases ha : Machine.admission p limit room name arguments with
    | error f =>
      have hf := admission_error ha
      exact .failed ⟨rfl, by simpa using hf⟩
    | ok a =>
      obtain ⟨hf, hstart, hend⟩ := admission_ok ha
      have hroom := Machine.room_lt_of_admission ha
      have hshows := hp.body name a.function hf
      have hcost := cost_le_allowance plan hf rounds
      -- The body is a trail for its script, in the frame of the call and inside no loop.
      have henv := fun inside => Store.environment_sim fun name' arguments' =>
        ih a.room hroom name' arguments' inside
      have htrail := Outline.trail hshows (hquiet.body name) henv rounds (s.enter (a.function.frame name arguments))
      have hfinish := hshows.found (List.mem_cons_of_mem _ List.mem_cons_self)
      have hbody := Machine.runBody_of_trail name hfinish rfl htrail (hcost.trans hle)
      rw [hshows.start?_eq] at hstart
      rw [hshows.finish?_eq] at hend
      unfold Machine.bodyOutcome
      dsimp only
      rw [← Option.some.inj hstart, ← Option.some.inj hend]
      exact returnFrom_sim a.function loops hbody

end Plan

/-! ### The main chart -/

/-- An outcome is finished: in some state, and perhaps with a fault. -/
inductive Outcome.Finishes {σ α : Type} : Outcome σ α → σ → Option Fault → Prop where
  | done {a : α} {s : σ} : Finishes (.done a s) s none
  | failed {f : Fault} {s : σ} : Finishes (.failed f s) s (some f)

theorem Outcome.Finishes.ne_unfinished {σ α : Type} {o : Outcome σ α} {s : σ} {fault : Option Fault}
    (h : o.Finishes s fault) : o ≠ .unfinished := by
  rintro rfl
  cases h

namespace Session

/-- A block that is done is reported, and control goes on from there. -/
theorem executeStep_of_done {allowance : Nat} {r : Requests} {s : Session} {b : Block} {target : Option BlockId}
    {m : Machine} (hs : s.machine.stopRequested = false) (hn : s.nextBlock? = some b)
    (h : Machine.executeMain s.program s.setup.callLimit allowance b s.machine = .done (.next target) m) :
    s.executeStep allowance r = some (arrive r b { s with machine := m, current := target }) := by
  unfold executeStep
  rw [hs, if_neg Bool.false_ne_true, hn]
  dsimp only
  rw [h]

/-- A block that fails ends the run, and the fault is reported. -/
theorem executeStep_of_failed {allowance : Nat} {r : Requests} {s : Session} {b : Block} {f : Fault} {m : Machine}
    (hs : s.machine.stopRequested = false) (hn : s.nextBlock? = some b) (hf : f ≠ .cancelled)
    (h : Machine.executeMain s.program s.setup.callLimit allowance b s.machine = .failed f m) :
    s.executeStep allowance r = some (fail f { s with machine := m }) := by
  unfold executeStep
  rw [hs, if_neg Bool.false_ne_true, hn]
  dsimp only
  rw [h]
  cases f with
  | cancelled => exact absurd rfl hf
  | _ => rfl

/-- One block of an unbroken run. -/
theorem runLoop_succ {allowance fuel told : Nat} {events new : List Event} {s t : Session}
    (hs : s.state = .running) (hp : s.pauseRequested = false) (h : s.executeStep allowance {} = some (t, new)) :
    runLoop allowance .silent (fuel + 1) told events s =
      runLoop allowance .silent fuel (told + new.countP Event.isStep) (new.reverseAux events) t := by
  have hsilent : Listener.silent told = {} := rfl
  rw [runLoop, if_neg (by simpa using hs), hp, if_neg Bool.false_ne_true, hsilent, h]

/-- A run that is over is not gone on with. -/
theorem runLoop_of_idle {allowance fuel told : Nat} {events : List Event} {s : Session} (hs : s.state = .idle) :
    runLoop allowance .silent (fuel + 1) told events s = some (s, events.reverse) := by
  rw [runLoop, if_pos (by rw [hs]; exact RunState.noConfusion)]

/-- The session with some machine in front of a block. -/
def facing (s : Session) (id : BlockId) (m : Machine) : Session := { s with machine := m, current := some id }

theorem nextBlock?_facing {s : Session} {b : Block} (hb : s.program.main.block? b.id = some b)
    (hkind : b.kind ≠ .finish) (m : Machine) : (s.facing b.id m).nextBlock? = some b := by
  show ((some b.id).bind s.program.main.block?).filter (·.kind != .finish) = some b
  rw [Option.bind_some, hb, Option.filter_some, if_pos (by simpa using hkind)]

theorem nextBlock?_facing_finish {s : Session} {b : Block} (hb : s.program.main.block? b.id = some b)
    (hkind : b.kind = .finish) (m : Machine) : (s.facing b.id m).nextBlock? = none := by
  show ((some b.id).bind s.program.main.block?).filter (·.kind != .finish) = none
  rw [Option.bind_some, hb, Option.filter_some, hkind]
  rfl

/-- A block before which the session goes on is reported, and nothing else happens. -/
theorem arrive_of_some {s : Session} {b next : Block} (h : s.nextBlock? = some next) :
    s.arrive {} b = (s, [.step b s.snapshot s.output]) := by
  unfold arrive
  dsimp only
  rw [accept_nothing, h]

/-- After the last block the run is over. -/
theorem arrive_of_none {s : Session} {b : Block} (h : s.nextBlock? = none) :
    s.arrive {} b = (s.halt.1, [.step b s.snapshot s.output, .complete]) := by
  unfold arrive
  dsimp only
  rw [accept_nothing, h]
  rfl

/-- How an unbroken run ends: with the store and the fault of a script, the fault having been reported once. -/
def EndsAs (store : Store) (fault : Option Fault) (events : List Event) (x : Option (Session × List Event)) :
    Prop :=
  ∃ t new, x = some (t, events.reverse ++ new) ∧ t.state = .idle ∧ t.output = store.output ∧
    t.machine.scope = store.scope ∧ Trace.errors new = (fault.map fun f => failureMessage f.message).toList

/-- The run is over with the last report. -/
theorem EndsAs.of_idle {t : Session} {fault : Option Fault} {new events : List Event} (hidle : t.state = .idle)
    (hnew : Trace.errors new = (fault.map fun f => failureMessage f.message).toList) :
    EndsAs t.machine.store fault events (some (t, (new.reverseAux events).reverse)) := by
  refine ⟨t, new, ?_, hidle, rfl, rfl, hnew⟩
  rw [List.reverseAux_eq, List.reverse_append, List.reverse_reverse]

/-- What was reported without an error may be counted among the earlier events. -/
theorem EndsAs.reported {store : Store} {fault : Option Fault} {events now : List Event}
    {x : Option (Session × List Event)} (h : EndsAs store fault (now.reverseAux events) x)
    (hnow : Trace.errors now = []) : EndsAs store fault events x := by
  obtain ⟨t, new, hx, hidle, hout, hscope, herrors⟩ := h
  refine ⟨t, now ++ new, ?_, hidle, hout, hscope, ?_⟩
  · rw [hx, List.reverseAux_eq, List.reverse_append, List.reverse_reverse, List.append_assoc]
  · unfold Trace.errors at hnow herrors ⊢
    rw [List.filterMap_append, hnow, herrors, List.nil_append]

/-- **The main chart goes along a trail.**  The induction is on the trail; the session is in front of the block
where the trail stands, and the run is over as soon as the end block comes next. -/
theorem runLoop_of_trail {s : Session} {finish : Block} {n fuel told allowance : Nat} {events : List Event}
    {id : BlockId} {loops inside : List BlockId} {store store' : Store} {fault : Option Fault}
    {o : Outcome Store Unit} (hs : s.state = .running) (hp : s.pauseRequested = false)
    (hfinish : s.program.main.block? finish.id = some finish) (hkind : finish.kind = .finish)
    (h : Trail (Machine.executeMain s.program s.setup.callLimit allowance) s.program.main finish.id loops n id
      inside store o)
    (hne : id ≠ finish.id) (hfuel : n + 1 ≤ fuel) (ho : o.Finishes store' fault) :
    EndsAs store' fault events (runLoop allowance .silent fuel told events (s.facing id (store.machine inside))) := by
  induction h generalizing fuel told events with
  | arrived => exact absurd rfl hne
  | unfinished => cases ho
  | @failed n b inside inside' store t f hb hblock hstep hf =>
    cases ho
    obtain ⟨fuel, rfl⟩ : ∃ k, fuel = k + 2 := ⟨fuel - 2, by omega⟩
    have hfail : (s.facing b.id (store.machine inside)).executeStep allowance {} =
        some ((s.facing b.id (store'.machine inside')).fail f) :=
      executeStep_of_failed rfl (nextBlock?_facing hb hblock _) hf hstep
    rw [runLoop_succ (s := s.facing b.id (store.machine inside)) hs hp hfail, runLoop_of_idle rfl]
    exact EndsAs.of_idle (t := ((s.facing b.id (store'.machine inside')).fail f).1) rfl rfl
  | @next n b id' inside inside' store t o hb hblock hstep hrest ih =>
    have hdone : (s.facing b.id (store.machine inside)).executeStep allowance {} =
        some ((s.facing id' (t.machine inside')).arrive {} b) :=
      executeStep_of_done rfl (nextBlock?_facing hb hblock _) hstep
    obtain ⟨fuel, rfl⟩ : ∃ k, fuel = k + 1 := ⟨fuel - 1, by omega⟩
    have hunfinished := ho.ne_unfinished
    by_cases hlast : id' = finish.id
    · -- The end block comes next, so the trail has arrived and the run is over.
      rw [hlast, arrive_of_none (nextBlock?_facing_finish hfinish hkind _)] at hdone
      rw [runLoop_succ (s := s.facing b.id (store.machine inside)) hs hp hdone]
      obtain ⟨fuel, rfl⟩ : ∃ k, fuel = k + 1 := ⟨fuel - 1, by omega⟩
      rw [runLoop_of_idle rfl]
      rw [hrest.eq_done_of_finish hlast hfinish hkind hunfinished] at ho
      cases ho
      exact EndsAs.of_idle (t := (s.facing finish.id (store'.machine inside')).halt.1) rfl rfl
    · obtain ⟨b', hid, hb', hkind'⟩ := hrest.block_of_ne hlast hunfinished
      subst hid
      rw [arrive_of_some (nextBlock?_facing hb' hkind' _)] at hdone
      rw [runLoop_succ (s := s.facing b.id (store.machine inside)) hs hp hdone]
      exact (ih hlast (by omega) ho).reported rfl

/-- **A structured program does what it means.**  Whenever the plan that the charts of a program follow comes to
its end, with some output, some variables and perhaps a fault, so does a run of the program, within every
allowance from some size on: it is over, with that output and these variables, and exactly that fault was
reported. -/
theorem start_refines {s : Session} {plan : Plan} (hp : s.program.Follows plan) (hquiet : plan.AsksNothing)
    {rounds : Nat} {store : Store} {fault : Option Fault}
    (h : (plan.run s.program.functions s.setup.callLimit rounds { scope := s.setup.initialScope }).Finishes
      store fault) :
    ∃ enough, ∀ allowance, enough ≤ allowance → ∃ reply, s.start allowance .silent = some reply ∧
      reply.result = .ok () ∧ reply.session.state = .idle ∧ reply.session.output = store.output ∧
      reply.session.machine.scope = store.scope ∧
      Trace.errors reply.events = (fault.map fun f => failureMessage f.message).toList := by
  refine ⟨plan.allowance s.program.functions rounds, fun allowance hle => ?_⟩
  have hmain := hp.main
  have henv := fun inside => Store.environment_sim fun name arguments =>
    Plan.call_sim hp hquiet s.setup.callLimit rounds hle s.setup.callLimit name arguments inside
  have htrail := Outline.trail hmain hquiet.main henv rounds { scope := s.setup.initialScope }
  have hfinish := hmain.found (List.mem_cons_of_mem _ List.mem_cons_self)
  have hcurrent : s.reset.current = some plan.main.start.id := hmain.start?_eq
  have hfuel : plan.main.script.cost rounds + 1 + 1 ≤ allowance := by
    unfold Plan.allowance at hle
    omega
  obtain ⟨t, new, hloop, hidle, hout, hscope, herrors⟩ :=
    runLoop_of_trail (s := { s.reset with state := .running }) rfl rfl hfinish rfl htrail plan.main.start_ne_finish hfuel h
  have hbegin : s.begin = { session := s.reset } := by
    unfold begin
    dsimp only
    rw [hcurrent]
  have hopened : ({ s.reset with state := .running } : Session) =
      Session.facing { s.reset with state := .running } plan.main.start.id
        (Store.machine [] { scope := s.setup.initialScope }) := by
    unfold facing
    rw [← hcurrent]
    rfl
  refine ⟨{ session := t, events := new }, ?_, rfl, hidle, hout, hscope, herrors⟩
  unfold start
  rw [hbegin]
  dsimp only
  rw [hopened, hloop]
  rfl

/-- A choice around a call. -/
def calling : Plan where
  main :=
    { start := ⟨0, ""⟩
      finish := ⟨1, ""⟩
      script := .choice ⟨2, "1"⟩ ⟨3, ""⟩ (.simple .functionCall ⟨4, "f()"⟩ .done) .done .done
      nodup := by decide }
  body _ := { start := ⟨0, ""⟩, finish := ⟨1, ""⟩, script := .done, nodup := by decide }

/-- The program whose charts show a choice around a call. -/
def callingProgram : Program where
  main :=
    { blocks :=
        [⟨0, .start, ""⟩, ⟨2, .conditional, "1"⟩, ⟨4, .functionCall, "f()"⟩, ⟨3, .merge, ""⟩, ⟨1, .finish, ""⟩]
      edges :=
        [⟨0, 2, none, none⟩, ⟨2, 4, some "yes", some .whenTrue⟩, ⟨2, 3, some "no", some .whenFalse⟩,
          ⟨4, 3, none, none⟩, ⟨3, 1, none, none⟩] }
  functions :=
    .ofList
      [{ name := "f"
         returnType := .void
         body := { blocks := [⟨0, .start, ""⟩, ⟨1, .finish, ""⟩], edges := [⟨0, 1, none, none⟩] } }]

/-- The choice is made, the function is called, and the run is over without an error. -/
theorem start_refines_calling :
    callingProgram.Follows calling ∧ calling.AsksNothing ∧
      ∃ enough, ∀ allowance, enough ≤ allowance → ∃ reply,
        (new { program := callingProgram }).start allowance .silent = some reply ∧ reply.result = .ok () ∧
        reply.session.state = .idle ∧ reply.session.output = "" ∧ reply.session.machine.scope = {} ∧
        Trace.errors reply.events = [] := by
  have hfollows : callingProgram.Follows calling := by
    refine ⟨⟨by decide, by decide⟩, fun name f h => ?_⟩
    by_cases hname : "f" = name
    · subst hname
      cases h
      exact ⟨by decide, by decide⟩
    · have hnone : callingProgram.functions.get? name = none := by
        simp [callingProgram, FunctionTable.ofList, FunctionTable.insert, FunctionTable.get?, Bindings.get?,
          Bindings.set, hname]
      rw [hnone] at h
      cases h
  have hquiet : calling.AsksNothing :=
    ⟨by unfold Script.AsksNothing; decide, fun _ => by unfold Script.AsksNothing; exact fun _ hb => absurd hb List.not_mem_nil⟩
  have hrun : (calling.run callingProgram.functions 100 1 {}).Finishes {} none := by
    have hdone : calling.run callingProgram.functions 100 1 {} = .done () {} := by cbv
    rw [hdone]
    exact .done
  exact ⟨hfollows, hquiet, start_refines (s := new { program := callingProgram }) hfollows hquiet hrun⟩

end Session

end Flowchart
