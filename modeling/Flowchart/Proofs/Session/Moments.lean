import Flowchart.Proofs.Schedules
import Flowchart.Proofs.Script.Labels

/-!
# What happens to a session, moment by moment

An operation of a host can do many things: it begins a run, executes blocks, takes a request to pause, ends the
run.  Whatever it does is made of a few sorts of moments, and whatever holds at every moment holds after every
operation.

* `Machine.Grounded`, `Machine.Grows` — what a block of the main chart keeps: no function is being executed
  before and after it, no loop is entered twice, and the output is only added to (`executeMain_grows`).
* `Session.Stepped` — everything that executing one block can come to; `stepped_of_executeStep`.
* `Mark` — what is written down of a session: the events that were reported, and where runs were begun and
  abandoned.
* `Session.Moment`, `Session.Moments` — the sorts of moments with their marks, and rows of them.
* `Session.History` — everything that can become of a session from its opening on: operations in any order, with
  any allowances and any requests, from outside and while the host is being told of a block.
* **`Session.History.moments`** — a history is a row of moments.
-/

namespace Flowchart

/-! ### The machine on the main chart -/

/-- An action in sequence that came to its end had a first part that came to its end. -/
theorem Action.exists_of_bind_done {σ α β : Type} {act : Action σ α} {next : α → Action σ β} {s t : σ} {b : β}
    (h : (act >>= next) s = .done b t) : ∃ a u, act s = .done a u ∧ next a u = .done b t := by
  rw [bind_apply] at h
  cases hact : act s with
  | done a u =>
    rw [hact] at h
    exact ⟨a, u, rfl, h⟩
  | failed f u =>
    rw [hact] at h
    cases h
  | unfinished =>
    rw [hact] at h
    cases h

namespace Machine

/-- No function is being executed, and no loop is entered twice. -/
structure Grounded (m : Machine) : Prop where
  frames_eq : m.scope.frames = []
  loops_nodup : m.loops.Nodup

/-- What may become of a machine: it stays grounded, and what was printed stays printed. -/
structure Grows (m n : Machine) : Prop where
  grounded : m.Grounded → n.Grounded
  printed : ∃ text, n.output = m.output ++ text

theorem Grows.refl (m : Machine) : m.Grows m := ⟨id, "", by simp⟩

theorem Grows.trans {m n o : Machine} (h : m.Grows n) (h' : n.Grows o) : m.Grows o := by
  obtain ⟨text, ht⟩ := h.printed
  obtain ⟨more, hm⟩ := h'.printed
  exact ⟨h'.grounded ∘ h.grounded, text ++ more, by rw [hm, ht, String.append_assoc]⟩

theorem Untouched.grows {m n : Machine} (h : m.Untouched n) : m.Grows n where
  grounded hm := ⟨by rw [h.scope_eq, hm.frames_eq], by rw [h.loops_eq]; exact hm.loops_nodup⟩
  printed := h.output_eq

/-- A variable that is bound while no function is being executed is a global. -/
theorem frames_set {s : Scope} (h : s.frames = []) (name : String) (v : Value) : (s.set name v).frames = [] := by
  unfold Scope.set
  rw [h]

/-- What blocks do, a machine may become by it. -/
theorem respected_grows (first : Machine) : Respected (fun _ m n => m = n ∧ first.Grows m) where
  bind := by
    rintro m _ ⟨rfl, h⟩ name v
    exact ⟨rfl, fun hm => ⟨frames_set (h.grounded hm).frames_eq name v, (h.grounded hm).loops_nodup⟩, h.printed⟩
  print := by
    rintro m _ ⟨rfl, h⟩ v
    obtain ⟨text, ht⟩ := h.printed
    refine ⟨rfl, fun hm => ⟨(h.grounded hm).frames_eq, (h.grounded hm).loops_nodup⟩,
      (text ++ v.display).push '\n', ?_⟩
    show (m.output ++ v.display).push '\n' = _
    rw [ht, String.push_eq_append, String.push_eq_append, String.append_assoc, String.append_assoc,
      String.append_assoc]
  loops := by
    rintro m _ ⟨rfl, -⟩
    rfl
  track := by
    rintro m _ ⟨rfl, h⟩ id outcome
    exact ⟨rfl, fun hm => ⟨(h.grounded hm).frames_eq, nodup_trackLoop id outcome (h.grounded hm).loops_nodup⟩,
      h.printed⟩
  poll := by
    rintro m _ ⟨rfl, h⟩
    refine ⟨⟨rfl, ?_⟩, rfl⟩
    unfold Machine.poll
    split
    · exact h
    · exact ⟨fun hm => ⟨(h.grounded hm).frames_eq, (h.grounded hm).loops_nodup⟩, h.printed⟩
    · exact ⟨fun hm => ⟨(h.grounded hm).frames_eq, (h.grounded hm).loops_nodup⟩, h.printed⟩

/-- **A block of the main chart** leaves the machine grounded, and adds to the output. -/
theorem executeMain_grows (p : Program) (limit allowance : Nat) (b : Block) :
    (executeMain p limit allowance b).Keeps Grows := by
  intro m
  have hcalls : ∀ name arguments,
      ((environment (call p limit allowance limit)).call name arguments).Keeps Grows :=
    fun name arguments n => (call_keeps p limit allowance limit name arguments n).imp fun _ => Untouched.grows
  have henv := Environment.sim_of_keeps (R := Grows) (fun _ _ _ => Grows.trans) hcalls m
  exact Outcome.ends_of_sim
    (execute_sim (respected_grows m) henv p.main b (fun _ _ _ _ h => h) m m ⟨rfl, Grows.refl m⟩)

/-- An instruction that asks for values is that of an input block, and has done nothing yet. -/
theorem perform_awaits {env : Environment Machine} {g : Graph} {id : BlockId} {i : Instruction}
    {names : List String} {m n : Machine} (h : perform env g id i m = .done (.awaitInput names) n) :
    i = .input names ∧ n = m := by
  cases i with
  | input vars =>
    cases h
    exact ⟨rfl, rfl⟩
  | start => cases h
  | finish => cases h
  | merge => cases h
  | assign target expression =>
    obtain ⟨v, m₁, -, h⟩ := Action.exists_of_bind_done h
    obtain ⟨u, m₂, -, h⟩ := Action.exists_of_bind_done h
    cases h
  | output expression =>
    obtain ⟨v, m₁, -, h⟩ := Action.exists_of_bind_done h
    obtain ⟨u, m₂, -, h⟩ := Action.exists_of_bind_done h
    cases h
  | choose condition =>
    obtain ⟨v, m₁, -, h⟩ := Action.exists_of_bind_done h
    cases h
  | doWhile condition =>
    obtain ⟨v, m₁, -, h⟩ := Action.exists_of_bind_done h
    cases h
  | whileLoop condition =>
    obtain ⟨v, m₁, -, h⟩ := Action.exists_of_bind_done h
    obtain ⟨u, m₂, -, h⟩ := Action.exists_of_bind_done h
    cases h
  | forLoop init condition increment =>
    obtain ⟨again, m₁, -, h⟩ := Action.exists_of_bind_done h
    obtain ⟨u, m₂, -, h⟩ := Action.exists_of_bind_done h
    obtain ⟨outcome, m₃, -, h⟩ := Action.exists_of_bind_done h
    obtain ⟨w, m₄, -, h⟩ := Action.exists_of_bind_done h
    cases h
  | call target function arguments =>
    obtain ⟨values, m₁, -, h⟩ := Action.exists_of_bind_done h
    obtain ⟨v, m₂, -, h⟩ := Action.exists_of_bind_done h
    obtain ⟨u, m₃, -, h⟩ := Action.exists_of_bind_done h
    cases h

/-- A block that came to its end has a label that could be read. -/
theorem exists_of_execute_done {env : Environment Machine} {g : Graph} {b : Block} {flow : Flow} {m n : Machine}
    (h : execute env g b m = .done flow n) :
    ∃ i, b.instruction = .ok i ∧ perform env g b.id i m = .done flow n := by
  obtain ⟨i, m₁, hi, h⟩ := Action.exists_of_bind_done h
  cases hlabel : b.instruction with
  | error f =>
    rw [hlabel] at hi
    cases hi
  | ok j =>
    rw [hlabel] at hi
    cases hi
    exact ⟨i, rfl, h⟩

/-- Only a block with the label of an input block asks for values. -/
theorem executeMain_awaits {p : Program} {limit allowance : Nat} {b : Block} {names : List String} {m n : Machine}
    (h : executeMain p limit allowance b m = .done (.awaitInput names) n) :
    b.instruction = .ok (.input names) ∧ n = m := by
  obtain ⟨i, hlabel, hperform⟩ := exists_of_execute_done h
  obtain ⟨rfl, rfl⟩ := perform_awaits hperform
  exact ⟨hlabel, rfl⟩

end Machine

namespace Session

/-! ### One block -/

/-- Everything that executing a block can come to, with the requests `r` that the host makes if it is told of the
block: the session and the events afterwards. -/
inductive Stepped (r : Requests) (s : Session) : Session × List Event → Prop where
  /-- The run is over: nothing comes next, or a request to stop was noticed. -/
  | ends {m : Machine} (h : s.machine.Grows m) : Stepped r s (halt { s with machine := m })
  | fails {f : Fault} {m : Machine} (h : s.machine.Grows m) : Stepped r s (fail f { s with machine := m })
  | arrives {b : Block} {target : Option BlockId} {m : Machine} (hb : s.nextBlock? = some b)
      (h : s.machine.Grows m) : Stepped r s (arrive r b { s with machine := m, current := target })
  | awaits {b : Block} {names : List String} (hb : s.nextBlock? = some b)
      (hlabel : b.instruction = .ok (.input names)) : Stepped r s (await b.id names s)

theorem stepped_of_executeStep {allowance : Nat} {r : Requests} {s : Session} {x : Session × List Event}
    (h : s.executeStep allowance r = some x) : Stepped r s x := by
  unfold executeStep at h
  by_cases hs : s.machine.stopRequested = true
  · rw [if_pos hs] at h
    cases h
    exact .ends (Machine.Grows.refl s.machine)
  rw [if_neg hs] at h
  cases hb : s.nextBlock? with
  | none =>
    rw [hb] at h
    cases h
    exact .ends (Machine.Grows.refl s.machine)
  | some b =>
    rw [hb] at h
    dsimp only at h
    have hgrows := Machine.executeMain_grows s.program s.setup.callLimit allowance b s.machine
    cases hmain : Machine.executeMain s.program s.setup.callLimit allowance b s.machine with
    | done flow m =>
      rw [hmain] at h hgrows
      cases flow with
      | next target =>
        cases h
        exact .arrives hb hgrows
      | awaitInput names =>
        obtain ⟨hlabel, rfl⟩ := Machine.executeMain_awaits hmain
        cases h
        exact .awaits hb hlabel
    | failed f m =>
      rw [hmain] at h hgrows
      cases f with
      | cancelled =>
        cases h
        exact .ends hgrows
      | _ =>
        cases h
        exact .fails hgrows
    | unfinished =>
      rw [hmain] at h
      cases h

/-- A session that arrives behind a block goes on, or the run is over. -/
theorem arrive_cases (r : Requests) (b : Block) (s : Session) :
    s.arrive r b = (s.accept r, [.step b s.snapshot s.output]) ∨
      s.arrive r b = ((s.accept r).halt.1, [.step b s.snapshot s.output, .complete]) := by
  unfold arrive
  dsimp only
  cases (s.accept r).nextBlock? with
  | some _ => exact .inl rfl
  | none => exact .inr rfl

/-- Executing a block ends the run, or finds that a value is wanted, or leaves the mode as it is. -/
theorem Stepped.state {r : Requests} {s : Session} {x : Session × List Event} (h : Stepped r s x) :
    x.1.state = .idle ∨ x.1.state = .paused ∨ x.1.state = s.state := by
  cases h with
  | ends _ => exact .inl rfl
  | fails _ => exact .inl rfl
  | @arrives b target m _ _ =>
    rcases arrive_cases r b { s with machine := m, current := target } with hx | hx
    · rw [hx]
      exact .inr (.inr rfl)
    · rw [hx]
      exact .inl rfl
  | awaits _ _ => exact .inr (.inl rfl)

/-! ### Moments -/

end Session

/-- What is written down of a session. -/
inductive Mark where
  /-- A run that was going on is given up without a report. -/
  | abandoned
  /-- A new run begins. -/
  | begun
  /-- The host is told of something. -/
  | event (e : Event)
  deriving DecidableEq

namespace Session

/-- What is written down when the session is set back: a run that is going on is abandoned. -/
def abandonment (s : Session) : List Mark := if s.state = .idle then [] else [.abandoned]

/-- Blocks are being executed. -/
def Going (s : Session) : Prop := s.state = .running ∨ s.state = .stepping

theorem Going.ne_paused {s : Session} (h : s.Going) : s.state ≠ .paused := by
  rcases h with h | h <;> rw [h] <;> exact RunState.noConfusion

theorem Going.ne_idle {s : Session} (h : s.Going) : s.state ≠ .idle := by
  rcases h with h | h <;> rw [h] <;> exact RunState.noConfusion

theorem going_of_ne {t : Session} (hidle : t.state ≠ .idle) (hpaused : t.state ≠ .paused) : t.Going := by
  cases hstate : t.state with
  | idle => exact absurd hstate hidle
  | paused => exact absurd hstate hpaused
  | running => exact .inl hstate
  | stepping => exact .inr hstate

/-- The sorts of moments in a session, with what is written down of them. -/
inductive Moment : Session → List Mark → Session → Prop where
  /-- A new run begins, block by block or without a break. -/
  | begins {s : Session} {mode : RunState} (hstart : s.program.main.start? ≠ none)
      (hmode : mode = .running ∨ mode = .stepping) :
      Moment s (s.abandonment ++ [Mark.begun]) { s.reset with state := mode }
  /-- A new run is over before it begins, because there is no start block. -/
  | refuses {s : Session} (hstart : s.program.main.start? = none) :
      Moment s (s.abandonment ++ [Mark.begun, Mark.event (.error (failureMessage Misuse.noStart.message)),
        Mark.event .complete]) s.reset
  | executes {r : Requests} {s : Session} {x : Session × List Event} (hs : s.Going) (h : Stepped r s x) :
      Moment s (x.2.map Mark.event) x.1
  /-- The mode changes, or a request to pause is taken. -/
  | changes {s : Session} {mode : RunState} {pause : Bool} (hs : s.Going)
      (hmode : mode = .running ∨ mode = .stepping) :
      Moment s [] { s with state := mode, pauseRequested := pause }
  /-- While a value is wanted, it is decided that the run goes on without a break afterwards. -/
  | resumes {s : Session} (hs : s.state = .paused) : Moment s [] { s with resume := true }
  /-- A variable gets its value, and others still wait. -/
  | answers {s : Session} {name next text : String} {rest : List String} (hs : s.state = .paused)
      (hp : s.pending = name :: next :: rest) :
      Moment s [.event (.inputRequired next)] { s.answer name text with pending := next :: rest }
  /-- The last variable gets its value. -/
  | leaves {r : Requests} {s : Session} {name text : String} (hs : s.state = .paused) (hp : s.pending = [name]) :
      Moment s (({ s.answer name text with pending := [] } : Session).leaveInput r |>.2.map Mark.event)
        (({ s.answer name text with pending := [] } : Session).leaveInput r).1
  | stops {s : Session} (hs : s.state ≠ .idle) : Moment s [.event .complete] s.halt.1
  | clears {s : Session} (hs : s.state = .idle) : Moment s [] s.clearRequests
  | resets {s : Session} : Moment s s.abandonment s.reset
  | accepts {s : Session} (r : Requests) : Moment s [] (s.accept r)

/-- Moments one after the other. -/
inductive Moments : Session → List Mark → Session → Prop where
  | rest {s : Session} : Moments s [] s
  | next {s t u : Session} {marks later : List Mark} (h : Moment s marks t) (h' : Moments t later u) :
      Moments s (marks ++ later) u

theorem Moment.single {s t : Session} {marks : List Mark} (h : Moment s marks t) : Moments s marks t := by
  have hrow : Moments s (marks ++ []) t := .next h .rest
  rwa [List.append_nil] at hrow

theorem Moments.trans {s t u : Session} {marks later : List Mark} (h : Moments s marks t)
    (h' : Moments t later u) : Moments s (marks ++ later) u := by
  induction h with
  | rest => exact h'
  | next hm _ ih =>
    rw [List.append_assoc]
    exact .next hm (ih h')

/-! ### Operations are rows of moments -/

/-- **An unbroken stretch is a row of moments**, by induction on the blocks that it may take. -/
theorem moments_of_runLoop {allowance : Nat} {listener : Listener} {fuel told : Nat} {events es : List Event}
    {s t : Session} (h : runLoop allowance listener fuel told events s = some (t, es)) :
    ∃ new, es = events.reverse ++ new ∧ Moments s (new.map Mark.event) t := by
  induction fuel generalizing told events s with
  | zero => cases h
  | succ fuel ih =>
    unfold runLoop at h
    by_cases hs : s.state ≠ .running
    · rw [if_pos hs] at h
      cases h
      exact ⟨[], (List.append_nil _).symm, .rest⟩
    rw [if_neg hs] at h
    have hgoing : s.Going := .inl (Decidable.not_not.mp hs)
    by_cases hp : s.pauseRequested = true
    · rw [if_pos hp] at h
      cases h
      exact ⟨[], (List.append_nil _).symm, (Moment.changes hgoing (.inr rfl)).single⟩
    rw [if_neg hp] at h
    cases hstep : s.executeStep allowance (listener told) with
    | none =>
      rw [hstep] at h
      cases h
    | some x =>
      obtain ⟨u, now⟩ := x
      rw [hstep] at h
      obtain ⟨later, hes, hrow⟩ := ih h
      refine ⟨now ++ later, ?_, ?_⟩
      · rw [hes, List.reverseAux_eq, List.reverse_append, List.reverse_reverse, List.append_assoc]
      · rw [List.map_append]
        exact .next (.executes hgoing (stepped_of_executeStep hstep)) hrow

/-- After an unbroken stretch no block is being executed any more. -/
theorem runLoop_not_running {allowance : Nat} {listener : Listener} {fuel told : Nat} {events es : List Event}
    {s t : Session} (h : runLoop allowance listener fuel told events s = some (t, es)) : t.state ≠ .running := by
  induction fuel generalizing told events s with
  | zero => cases h
  | succ fuel ih =>
    unfold runLoop at h
    by_cases hs : s.state ≠ .running
    · rw [if_pos hs] at h
      cases h
      exact hs
    rw [if_neg hs] at h
    by_cases hp : s.pauseRequested = true
    · rw [if_pos hp] at h
      cases h
      exact RunState.noConfusion
    rw [if_neg hp] at h
    cases hstep : s.executeStep allowance (listener told) with
    | none =>
      rw [hstep] at h
      cases h
    | some x =>
      rw [hstep] at h
      exact ih h

/-- A stretch that begins with nothing reported: its events are those of its moments. -/
theorem moments_of_stretch {allowance : Nat} {listener : Listener} {s : Session} {r : Reply}
    (h : replied (runLoop allowance listener allowance 0 [] s) = some r) :
    Moments s (r.events.map Mark.event) r.session ∧ r.session.state ≠ .running := by
  have hloop := eq_of_replied h
  obtain ⟨new, hes, hrow⟩ := moments_of_runLoop hloop
  rw [List.reverse_nil, List.nil_append] at hes
  rw [hes]
  exact ⟨hrow, runLoop_not_running hloop⟩

/-- One block of a session in which it is executed by itself. -/
theorem moments_of_block {allowance : Nat} {q : Requests} {s : Session} {r : Reply} (hs : s.state = .stepping)
    (h : replied (executeStep allowance q s) = some r) :
    Moments s (r.events.map Mark.event) r.session ∧ r.session.state ≠ .running := by
  have hstep := stepped_of_executeStep (eq_of_replied h)
  refine ⟨(Moment.executes (.inr hs) hstep).single, ?_⟩
  rcases hstep.state with hstate | hstate | hstate <;> rw [hstate]
  · exact RunState.noConfusion
  · exact RunState.noConfusion
  · rw [hs]
    exact RunState.noConfusion

/-! ### Operations -/

/-- Without a start block the beginning of a run reports the error and the end. -/
theorem begin_of_none {s : Session} (h : s.program.main.start? = none) :
    s.begin =
      { result := .error .noStart, session := s.reset,
        events := [.error (failureMessage Misuse.noStart.message), .complete] } := by
  unfold begin
  have hcurrent : s.reset.current = s.program.main.start? := rfl
  dsimp only
  rw [hcurrent, h]

/-- A run that begins with the given requests before its first block, without a break or with one block. -/
theorem moments_of_opening {s : Session} {mode : RunState} {q : Requests} {r : Reply}
    (hstart : s.program.main.start? ≠ none) (hmode : mode = .running ∨ mode = .stepping)
    (h : Moments (({ s.reset with state := mode } : Session).accept q) (r.events.map Mark.event) r.session) :
    Moments s (s.abandonment ++ Mark.begun :: r.events.map Mark.event) r.session := by
  have hrow := Moments.next (.begins hstart hmode) (Moments.next (.accepts q) h)
  rwa [List.nil_append, List.append_assoc] at hrow

/-- A run that is refused. -/
theorem moments_of_refusal {s : Session} (hstart : s.program.main.start? = none) :
    Moments s (s.abandonment ++ Mark.begun :: s.begin.events.map Mark.event) s.begin.session := by
  rw [begin_of_none hstart]
  exact (Moment.refuses hstart).single

end Session

/-- A command begins a new run in a session. -/
def Command.begins (c : Command) (s : Session) : Bool :=
  match c with
  | .start => true
  | .step | .run => !s.isRunning
  | _ => false

/-- A command gives up the run that is going on in a session. -/
def Command.abandons (c : Command) (s : Session) : Bool :=
  match c with
  | .start | .reset => s.isRunning
  | _ => false

/-- What is written down of a command before its events. -/
def Command.marks (c : Command) (s : Session) : List Mark :=
  (if c.abandons s then [Mark.abandoned] else []) ++ if c.begins s then [Mark.begun] else []

namespace Session

theorem isRunning_eq_false {s : Session} (h : s.state = .idle) : s.isRunning = false := by
  unfold isRunning
  rw [h]
  rfl

theorem isRunning_eq_true {s : Session} (h : s.state ≠ .idle) : s.isRunning = true := by
  unfold isRunning
  exact bne_iff_ne.mpr h

/-- Setting a session back abandons its run, if there is one. -/
theorem abandonment_eq (s : Session) : s.abandonment = if s.isRunning then [.abandoned] else [] := by
  unfold abandonment
  by_cases h : s.state = .idle
  · rw [if_pos h, isRunning_eq_false h]
    rfl
  · rw [if_neg h, isRunning_eq_true h]
    rfl

theorem marks_start (s : Session) : Command.start.marks s = s.abandonment ++ [Mark.begun] := by
  rw [abandonment_eq]
  rfl

theorem marks_reset (s : Session) : Command.reset.marks s = s.abandonment := by
  rw [abandonment_eq]
  exact List.append_nil _

/-- From an idle session on, a step and an unbroken run begin a new run as `start` does. -/
theorem marks_step {s : Session} (h : s.state = .idle) : Command.step.marks s = s.abandonment ++ [Mark.begun] := by
  rw [abandonment_eq]
  unfold Command.marks Command.abandons Command.begins
  rw [isRunning_eq_false h]
  rfl

theorem marks_run {s : Session} (h : s.state = .idle) : Command.run.marks s = s.abandonment ++ [Mark.begun] :=
  marks_step h

theorem moments_of_start {allowance : Nat} {listener : Listener} {s : Session} {r : Reply}
    (h : s.start allowance listener = some r) :
    Moments s (s.abandonment ++ Mark.begun :: r.events.map Mark.event) r.session ∧ r.session.state ≠ .running := by
  unfold start at h
  by_cases hstart : s.program.main.start? = none
  · have hrefused := moments_of_refusal hstart
    rw [begin_of_none hstart] at h hrefused
    cases h
    exact ⟨hrefused, RunState.noConfusion⟩
  · rw [begin_of_start hstart] at h
    obtain ⟨hrow, hstate⟩ := moments_of_stretch h
    exact ⟨moments_of_opening hstart (.inl rfl) (by rwa [accept_nothing]), hstate⟩

/-- While a run is going on, a command other than `start` and `reset` leaves no mark of its own. -/
theorem marks_of_isRunning {c : Command} {s : Session} (hs : s.state ≠ .idle) (hstart : c ≠ .start)
    (hreset : c ≠ .reset) : c.marks s = [] := by
  unfold Command.marks Command.abandons Command.begins
  rw [isRunning_eq_true hs]
  cases c with
  | start => exact absurd rfl hstart
  | reset => exact absurd rfl hreset
  | _ => rfl

theorem moments_of_step {allowance : Nat} {listener : Listener} {s : Session} {r : Reply}
    (hs : s.state ≠ .running) (h : s.step allowance listener = some r) :
    Moments s (Command.step.marks s ++ r.events.map Mark.event) r.session ∧ r.session.state ≠ .running := by
  unfold step at h
  cases hstate : s.state with
  | running => exact absurd hstate hs
  | paused =>
    rw [hstate] at h
    cases h
    rw [marks_of_isRunning (by rw [hstate]; exact RunState.noConfusion) Command.noConfusion Command.noConfusion]
    exact ⟨.rest, hs⟩
  | stepping =>
    rw [hstate] at h
    rw [marks_of_isRunning (by rw [hstate]; exact RunState.noConfusion) Command.noConfusion Command.noConfusion]
    obtain ⟨hrow, hstate'⟩ := moments_of_block rfl h
    have hchange : Moment s [] { s with state := .stepping, pauseRequested := s.pauseRequested } :=
      .changes (.inr hstate) (.inr rfl)
    exact ⟨.next hchange hrow, hstate'⟩
  | idle =>
    rw [hstate] at h
    dsimp only at h
    rw [marks_step hstate, List.append_assoc]
    by_cases hstart : s.program.main.start? = none
    · have hrefused := moments_of_refusal hstart
      rw [begin_of_none hstart] at h hrefused
      cases h
      exact ⟨hrefused, RunState.noConfusion⟩
    · rw [begin_of_start hstart] at h
      obtain ⟨hrow, hstate'⟩ := moments_of_block rfl h
      exact ⟨moments_of_opening hstart (.inr rfl) (by rwa [accept_nothing]), hstate'⟩

theorem moments_of_run {allowance : Nat} {listener : Listener} {s : Session} {r : Reply}
    (hs : s.state ≠ .running) (h : s.run allowance listener = some r) :
    Moments s (Command.run.marks s ++ r.events.map Mark.event) r.session ∧ r.session.state ≠ .running := by
  unfold run at h
  cases hstate : s.state with
  | running => exact absurd hstate hs
  | paused =>
    rw [hstate] at h
    cases h
    rw [marks_of_isRunning (by rw [hstate]; exact RunState.noConfusion) Command.noConfusion Command.noConfusion]
    have hrow := (Moment.resumes hstate).single
    rw [hstate] at hrow
    exact ⟨hrow, RunState.noConfusion⟩
  | stepping =>
    rw [hstate] at h
    rw [marks_of_isRunning (by rw [hstate]; exact RunState.noConfusion) Command.noConfusion Command.noConfusion]
    obtain ⟨hrow, hstate'⟩ := moments_of_stretch h
    have hchange : Moment s [] { s with state := .running, pauseRequested := s.pauseRequested } :=
      .changes (.inr hstate) (.inl rfl)
    exact ⟨.next hchange hrow, hstate'⟩
  | idle =>
    rw [hstate] at h
    rw [marks_run hstate, List.append_assoc]
    exact moments_of_start h

/-- **An answer is a moment**, and after the last one the run may go on. -/
theorem moments_of_provideInput {allowance : Nat} {listener : Listener} {text : String} {s : Session} {r : Reply}
    (hs : s.state ≠ .running) (h : s.provideInput allowance listener text = some r) :
    Moments s (r.events.map Mark.event) r.session ∧ r.session.state ≠ .running := by
  unfold provideInput at h
  by_cases hpaused : s.state = .paused
  · rw [hpaused] at h
    match hp : s.pending with
    | [] =>
      rw [hp] at h
      cases h
      exact ⟨.rest, hs⟩
    | name :: next :: rest =>
      rw [hp] at h
      cases h
      exact ⟨(Moment.answers hpaused hp).single, hs⟩
    | [name] =>
      rw [hp] at h
      dsimp only at h
      have hleave : Moment s _ (({ s.answer name text with pending := [] } : Session).leaveInput (listener 0)).1 :=
        .leaves hpaused hp
      have hrow := hleave.single
      have hstate := @leaveInput_state (listener 0) { s.answer name text with pending := [] }
      revert h hrow hstate
      generalize ({ s.answer name text with pending := [] } : Session).leaveInput (listener 0) = x
      obtain ⟨left, events⟩ := x
      intro h hrow hstate
      dsimp only at h hrow hstate
      by_cases hresume : left.state ≠ .idle ∧ s.resume = true
      · rw [if_pos hresume] at h
        have hloop := eq_of_replied h
        obtain ⟨new, hes, hlater⟩ := moments_of_runLoop hloop
        rw [List.reverse_reverse] at hes
        rw [hes, List.map_append]
        have hchange : Moment left [] { left with state := .running, pauseRequested := left.pauseRequested } :=
          .changes (.inr (hstate hresume.1)) (.inl rfl)
        exact ⟨hrow.trans (.next hchange hlater), runLoop_not_running hloop⟩
      · rw [if_neg hresume] at h
        cases h
        refine ⟨hrow, ?_⟩
        by_cases hidle : left.state = .idle
        · rw [hidle]
          exact RunState.noConfusion
        · rw [hstate hidle]
          exact RunState.noConfusion
  · have hrefused : r = { result := .error .notAwaitingInput, session := s } := by
      cases hstate : s.state with
      | paused => exact absurd hstate hpaused
      | _ =>
        rw [hstate] at h
        exact (Option.some.inj h).symm
    rw [hrefused]
    exact ⟨.rest, hs⟩

theorem requestStop_eq (s : Session) : s.requestStop = s.accept { stop := true } := by
  simp [requestStop, accept]

theorem requestPause_eq (s : Session) : s.requestPause = s.accept { pause := true } := by
  simp [requestPause, accept]

/-- **Every operation is a row of moments**, and after it no block is being executed. -/
theorem moments_of_perform {allowance : Nat} {listener : Listener} {c : Command} {s : Session} {r : Reply}
    (hs : s.state ≠ .running) (h : s.perform allowance listener c = some r) :
    Moments s (c.marks s ++ r.events.map Mark.event) r.session ∧ r.session.state ≠ .running := by
  cases c with
  | start =>
    rw [marks_start, List.append_assoc]
    exact moments_of_start h
  | step => exact moments_of_step hs h
  | run => exact moments_of_run hs h
  | provideInput text => exact moments_of_provideInput hs h
  | stop =>
    cases h
    unfold Session.stop
    by_cases hidle : s.state = .idle
    · rw [hidle]
      refine ⟨(Moment.clears hidle).single, ?_⟩
      exact hs
    · have hrow := (Moment.stops hidle).single
      cases hstate : s.state with
      | idle => exact absurd hstate hidle
      | _ => exact ⟨hrow, RunState.noConfusion⟩
  | reset =>
    cases h
    rw [marks_reset, List.map_nil, List.append_nil]
    exact ⟨Moment.resets.single, RunState.noConfusion⟩
  | requestStop =>
    cases h
    rw [requestStop_eq]
    exact ⟨(Moment.accepts _).single, hs⟩
  | requestPause =>
    cases h
    rw [requestPause_eq]
    exact ⟨(Moment.accepts _).single, hs⟩

/-! ### Histories -/

/-- What becomes of a session from its opening on, with what is written down of it.  Operations come in any
order, each with an allowance and with requests of its own, made while the host is being told of a block; and
requests reach the session between two operations, or after the beginning of a run and before its first block.

An operation that never ends takes no place in a history.  Up to any of its blocks it reports what it would
report to a host who asks for a pause there. -/
inductive History (setup : Setup) : List Mark → Session → Prop where
  | opened : History setup [] (new setup)
  | operated {allowance : Nat} {listener : Listener} {c : Command} {marks : List Mark} {s : Session} {r : Reply}
      (h : History setup marks s) (hr : s.perform allowance listener c = some r) :
      History setup (marks ++ (c.marks s ++ r.events.map Mark.event)) r.session
  | requested {marks : List Mark} {s : Session} (q : Requests) (h : History setup marks s) :
      History setup marks (s.accept q)
  /-- An unbroken run is begun, and requests arrive before its first block. -/
  | hurriedStart {allowance : Nat} {listener : Listener} {marks : List Mark} {s : Session} {r : Reply}
      (q : Requests) (h : History setup marks s) (hbegin : s.begin.result = .ok ())
      (hr : replied (runLoop allowance listener allowance 0 []
        (({ s.begin.session with state := .running } : Session).accept q)) = some r) :
      History setup (marks ++ (Command.start.marks s ++ r.events.map Mark.event)) r.session
  /-- A run is begun block by block, and requests arrive before its first block. -/
  | hurriedStep {allowance : Nat} {listener : Listener} {marks : List Mark} {s : Session} {r : Reply}
      (q : Requests) (h : History setup marks s) (hidle : s.state = .idle) (hbegin : s.begin.result = .ok ())
      (hr : replied (executeStep allowance (listener 0)
        (({ s.begin.session with state := .stepping } : Session).accept q)) = some r) :
      History setup (marks ++ (Command.step.marks s ++ r.events.map Mark.event)) r.session

/-- A run that can begin has a block to begin with. -/
theorem start_of_begin {s : Session} (h : s.begin.result = .ok ()) : s.program.main.start? ≠ none := by
  intro hstart
  rw [begin_of_none hstart] at h
  cases h

/-- **A history is a row of moments**, and between two operations no block is being executed. -/
theorem History.moments {setup : Setup} {marks : List Mark} {s : Session} (h : History setup marks s) :
    Moments (new setup) marks s ∧ s.state ≠ .running := by
  induction h with
  | opened => exact ⟨.rest, RunState.noConfusion⟩
  | operated _ hr ih =>
    obtain ⟨hrow, hs⟩ := ih
    obtain ⟨hrow', hs'⟩ := moments_of_perform hs hr
    exact ⟨hrow.trans hrow', hs'⟩
  | requested q _ ih =>
    obtain ⟨hrow, hs⟩ := ih
    have hrow' := hrow.trans (Moment.accepts q).single
    rw [List.append_nil] at hrow'
    exact ⟨hrow', hs⟩
  | hurriedStart q _ hbegin hr ih =>
    have hstart := start_of_begin hbegin
    rw [begin_of_start hstart] at hr
    obtain ⟨hrow', hs'⟩ := moments_of_stretch hr
    rw [marks_start, List.append_assoc]
    exact ⟨ih.1.trans (moments_of_opening hstart (.inl rfl) hrow'), hs'⟩
  | hurriedStep q _ hidle hbegin hr ih =>
    have hstart := start_of_begin hbegin
    rw [begin_of_start hstart] at hr
    obtain ⟨hrow', hs'⟩ := moments_of_block rfl hr
    rw [marks_step hidle, List.append_assoc]
    exact ⟨ih.1.trans (moments_of_opening hstart (.inr rfl) hrow'), hs'⟩

end Session

end Flowchart
