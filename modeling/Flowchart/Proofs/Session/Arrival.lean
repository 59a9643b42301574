import Flowchart.Proofs.Session.Renewal
import Flowchart.Proofs.Validated

/-!
# Where runs of sound programs end

A run of a program that passes the checks ends at an end block of the main chart, unless it fails or somebody ends
it.

* `Requests.Patient` — requests without a wish to stop.
* `Session.Undisturbed` — a run from its beginning on, in which nobody asks for its end and nobody sets it back,
  with the events that were reported since.
* `Session.OnCourse` — the invariant: nobody has asked for an end, control is at a block of the main chart, and if
  the run is over, at an end block.  `OnCourse.executeStep` is the step, `OnCourse.runLoop` carries it over unbroken
  stretches, `Undisturbed.onCourse` over whole runs.
* **`Session.arrives_of_validate`** — what a program that passes the checks never does.
-/

namespace Flowchart

/-- Requests without a wish to stop. -/
def Requests.Patient (r : Requests) : Prop := r.stop = false ∧ r.stopAfter = none

/-- A host that never asks for an end. -/
def Listener.Patient (listener : Listener) : Prop := ∀ n, (listener n).Patient

/-- A command that lets a run go on. -/
def Command.goesOn : Command → Bool
  | .step | .run | .provideInput _ | .requestPause => true
  | .start | .stop | .reset | .requestStop => false

namespace Session

/-- A run from its beginning on, after any history, with the events that were reported since.  Hosts may drive it as
they like, but they neither ask for its end nor set it back. -/
inductive Undisturbed (setup : Setup) : List Event → Session → Prop where
  | begun {allowance : Nat} {listener : Listener} {c : Command} {marks : List Mark} {s : Session} {r : Reply}
      (h : History setup marks s) (hc : c.begins s = true) (hl : listener.Patient)
      (hr : s.perform allowance listener c = some r) : Undisturbed setup r.events r.session
  /-- An unbroken run is begun, and requests arrive before its first block. -/
  | hurriedStart {allowance : Nat} {listener : Listener} {marks : List Mark} {s : Session} {r : Reply}
      (q : Requests) (hq : q.Patient) (h : History setup marks s) (hl : listener.Patient)
      (hbegin : s.begin.result = .ok ())
      (hr : replied (runLoop allowance listener allowance 0 []
        (({ s.begin.session with state := .running } : Session).accept q)) = some r) :
      Undisturbed setup r.events r.session
  /-- A run is begun block by block, and requests arrive before its first block. -/
  | hurriedStep {allowance : Nat} {listener : Listener} {marks : List Mark} {s : Session} {r : Reply}
      (q : Requests) (hq : q.Patient) (h : History setup marks s) (hl : listener.Patient) (hidle : s.state = .idle)
      (hbegin : s.begin.result = .ok ())
      (hr : replied (executeStep allowance (listener 0)
        (({ s.begin.session with state := .stepping } : Session).accept q)) = some r) :
      Undisturbed setup r.events r.session
  | operated {allowance : Nat} {listener : Listener} {c : Command} {es : List Event} {s : Session} {r : Reply}
      (h : Undisturbed setup es s) (hc : c.goesOn = true) (hbegins : c.begins s = false) (hl : listener.Patient)
      (hr : s.perform allowance listener c = some r) : Undisturbed setup (es ++ r.events) r.session
  | requested {es : List Event} {s : Session} (q : Requests) (hq : q.Patient) (h : Undisturbed setup es s) :
      Undisturbed setup es (s.accept q)

/-- An undisturbed run is part of a history. -/
theorem Undisturbed.history {setup : Setup} {es : List Event} {s : Session} (h : Undisturbed setup es s) :
    ∃ marks, History setup marks s := by
  induction h with
  | begun h _ _ hr => exact ⟨_, .operated h hr⟩
  | hurriedStart q _ h _ hbegin hr => exact ⟨_, .hurriedStart q h hbegin hr⟩
  | hurriedStep q _ h _ hidle hbegin hr => exact ⟨_, .hurriedStep q h hidle hbegin hr⟩
  | operated _ _ _ _ hr ih =>
    obtain ⟨marks, h⟩ := ih
    exact ⟨_, .operated h hr⟩
  | requested q _ _ ih =>
    obtain ⟨marks, h⟩ := ih
    exact ⟨marks, .requested q h⟩

/-! ### The invariant -/

/-- A session in an undisturbed run of a sound program. -/
structure OnCourse (setup : Setup) (s : Session) : Prop where
  setup_eq : s.setup = setup
  not_asked : ¬s.machine.Asked
  located : s.program.main.Located s.current
  arrived : s.state = .idle → ∃ b, s.currentBlock? = some b ∧ b.kind = .finish

/-- A failure was reported. -/
def Failed (es : List Event) : Prop := ∃ message, Event.error message ∈ es

variable {setup : Setup} {s t : Session} {es : List Event}

/-- Every session that was opened with a setup has the program of the setup. -/
theorem sound_of_setup (hs : s.setup = setup) (hg : setup.program.main.Sound) : s.program.main.Sound := by
  unfold program
  rw [hs]
  exact hg

/-- If control is at a block and nothing comes next, the block is an end block. -/
theorem exists_finish (h : s.program.main.Located s.current) (hnext : s.nextBlock? = none) :
    ∃ b, s.currentBlock? = some b ∧ b.kind = .finish := by
  obtain ⟨b, hb⟩ := h
  change s.currentBlock? = some b at hb
  refine ⟨b, hb, ?_⟩
  unfold nextBlock? at hnext
  rw [hb] at hnext
  simpa using hnext

namespace OnCourse

/-- At the end of the path the run is over. -/
theorem halt (h : s.OnCourse setup) (hnext : s.nextBlock? = none) : s.halt.1.OnCourse setup where
  setup_eq := h.setup_eq
  not_asked := by
    intro hasked
    rcases hasked with hstop | hafter
    · cases hstop
    · exact hafter rfl
  located := h.located
  arrived := fun _ => exists_finish h.located hnext

/-- Requests without a wish to stop do no harm. -/
theorem accept (h : s.OnCourse setup) {r : Requests} (hr : r.Patient) : (s.accept r).OnCourse setup where
  setup_eq := h.setup_eq
  not_asked := by
    intro hasked
    apply h.not_asked
    rcases hasked with hstop | hafter
    · change (s.machine.stopRequested || r.stop) = true at hstop
      rw [hr.1, Bool.or_false] at hstop
      exact .inl hstop
    · change r.stopAfter.or s.machine.stopAfter ≠ none at hafter
      rw [hr.2, Option.none_or] at hafter
      exact .inr hafter
  located := h.located
  arrived := h.arrived

/-- The mode of a run that is not over does not matter. -/
theorem mode (h : s.OnCourse setup) (state : RunState) (hstate : state ≠ .idle) (pause : Bool) :
    OnCourse setup { s with state, pauseRequested := pause } where
  setup_eq := h.setup_eq
  not_asked := h.not_asked
  located := h.located
  arrived := fun hidle => absurd hidle hstate

/-- Behind a block control is at the next one, or at the end. -/
theorem arrive (h : s.OnCourse setup) {r : Requests} (hr : r.Patient) (b : Block) :
    (s.arrive r b).1.OnCourse setup := by
  unfold Session.arrive
  dsimp only
  cases hnext : (s.accept r).nextBlock? with
  | some _ => exact h.accept hr
  | none => exact (h.accept hr).halt hnext

/-- **One block**: it leads to the next one, or asks for values, or fails; nothing else can happen. -/
theorem executeStep (h : s.OnCourse setup) (hg : setup.program.main.Sound) (hgoing : s.Going) {allowance : Nat}
    {r : Requests} (hr : r.Patient) {x : Session × List Event} (hstep : s.executeStep allowance r = some x) :
    x.1.OnCourse setup ∨ Failed x.2 := by
  unfold Session.executeStep at hstep
  rw [if_neg fun hstop => h.not_asked (.inl hstop)] at hstep
  cases hnext : s.nextBlock? with
  | none =>
    rw [hnext] at hstep
    cases hstep
    exact .inl (h.halt hnext)
  | some b =>
    rw [hnext] at hstep
    dsimp only at hstep
    obtain ⟨hends, hcancelled⟩ :=
      Machine.executeMain_of_not_asked s.program s.setup.callLimit allowance b h.not_asked
    cases hmain : Machine.executeMain s.program s.setup.callLimit allowance b s.machine with
    | done flow m =>
      rw [hmain] at hstep hends
      cases flow with
      | next target =>
        cases hstep
        obtain ⟨hmem, -⟩ := Graph.mem_of_block? (nextBlock?_spec hnext).2
        have hkind : b.kind ≠ .finish := by simpa using (Option.filter_eq_some_iff.mp hnext).2
        have hleft : OnCourse setup { s with machine := m, current := target } := {
          setup_eq := h.setup_eq
          not_asked := hends
          located := (sound_of_setup h.setup_eq hg).leads hmem hkind hmain
          arrived := fun hidle => absurd hidle hgoing.ne_idle }
        exact .inl (hleft.arrive hr b)
      | awaitInput names =>
        cases hstep
        exact .inl ⟨h.setup_eq, hends, h.located, RunState.noConfusion⟩
    | failed f m =>
      rw [hmain] at hstep
      cases f with
      | cancelled => exact absurd hmain (hcancelled m)
      | _ =>
        cases hstep
        exact .inr ⟨_, List.mem_cons_self⟩
    | unfinished =>
      rw [hmain] at hstep
      cases hstep

/-- **Unbroken stretches**, by induction on the blocks that they may take. -/
theorem runLoop (h : s.OnCourse setup) (hg : setup.program.main.Sound) {allowance fuel told : Nat} {listener : Listener}
    (hl : listener.Patient) {events : List Event}
    (hloop : runLoop allowance listener fuel told events s = some (t, es)) : t.OnCourse setup ∨ Failed es := by
  induction fuel generalizing told events s with
  | zero => cases hloop
  | succ fuel ih =>
    unfold Session.runLoop at hloop
    by_cases hs : s.state ≠ .running
    · rw [if_pos hs] at hloop
      cases hloop
      exact .inl h
    rw [if_neg hs] at hloop
    have hgoing : s.Going := .inl (Decidable.not_not.mp hs)
    by_cases hp : s.pauseRequested = true
    · rw [if_pos hp] at hloop
      cases hloop
      exact .inl (h.mode .stepping RunState.noConfusion false)
    rw [if_neg hp] at hloop
    cases hstep : s.executeStep allowance (listener told) with
    | none =>
      rw [hstep] at hloop
      cases hloop
    | some x =>
      obtain ⟨u, now⟩ := x
      rw [hstep] at hloop
      rcases h.executeStep hg hgoing (hl told) hstep with hu | ⟨message, hmem⟩
      · exact ih hu hloop
      · obtain ⟨new, hes, -⟩ := moments_of_runLoop hloop
        refine .inr ⟨message, ?_⟩
        rw [hes, List.mem_append, List.reverseAux_eq, List.reverse_append, List.reverse_reverse, List.mem_append]
        exact .inl (.inr hmem)

/-- A run begins on course. -/
theorem reset (hs : s.setup = setup) (hg : setup.program.main.Sound) {mode : RunState} (hmode : mode ≠ .idle) :
    OnCourse setup { s.reset with state := mode } where
  setup_eq := hs
  not_asked := by
    intro hasked
    rcases hasked with hstop | hafter
    · cases hstop
    · exact hafter rfl
  located := by
    obtain ⟨id, hid⟩ := (sound_of_setup hs hg).start
    show s.program.main.Located s.program.main.start?
    rw [hid]
    exact Graph.located_start hid
  arrived := fun hidle => absurd hidle hmode

/-- **The last answer**: the block that waited leads to a block. -/
theorem leaveInput (h : s.OnCourse setup) (hg : setup.program.main.Sound) {b : Block}
    (hblock : s.inputBlock.bind s.program.main.block? = some b) (hkind : b.kind ≠ .finish) {r : Requests}
    (hr : r.Patient) : (s.leaveInput r).1.OnCourse setup := by
  obtain ⟨id, -, hb⟩ := Option.bind_eq_some_iff.mp hblock
  have hleft : OnCourse setup
      { s with
        inputBlock := none, resume := false, state := .stepping, current := s.program.main.successor? b.id } := {
    setup_eq := h.setup_eq
    not_asked := h.not_asked
    located := (sound_of_setup h.setup_eq hg).located_of_successor (Graph.mem_of_block? hb).1 hkind
    arrived := RunState.noConfusion }
  unfold Session.leaveInput
  rw [hblock]
  exact hleft.arrive hr b

theorem answer (h : s.OnCourse setup) (hpaused : s.state = .paused) (name text : String) (rest : List String) :
    OnCourse setup { s.answer name text with pending := rest } where
  setup_eq := h.setup_eq
  not_asked := h.not_asked
  located := h.located
  arrived := by
    intro hidle
    change s.state = .idle at hidle
    rw [hpaused] at hidle
    cases hidle

/-- **Answers**, and what is executed after the last one. -/
theorem provideInput (h : s.OnCourse setup) (hg : setup.program.main.Sound) (hs : s.Coherent) {allowance : Nat}
    {listener : Listener} (hl : listener.Patient) {text : String} {r : Reply}
    (hr : s.provideInput allowance listener text = some r) : r.session.OnCourse setup ∨ Failed r.events := by
  by_cases hpaused : s.state = .paused
  · obtain ⟨b, names, hw⟩ := hs.waits hpaused
    have hkind : b.kind ≠ .finish := by
      rw [← Block.kind_of_instruction hw.label]
      exact BlockKind.noConfusion
    unfold Session.provideInput at hr
    rw [hpaused] at hr
    match hp : s.pending with
    | [] => exact absurd hp hw.pending_ne
    | name :: next :: rest =>
      rw [hp] at hr
      cases hr
      exact .inl (h.answer hpaused name text _)
    | [name] =>
      rw [hp] at hr
      dsimp only at hr
      have hblock : s.inputBlock.bind s.program.main.block? = some b := by
        rw [hw.inputBlock_eq, Option.bind_some, hw.found]
      have hleft : (({ s.answer name text with pending := [] } : Session).leaveInput (listener 0)).1.OnCourse setup :=
        (h.answer hpaused name text []).leaveInput hg hblock hkind (hl 0)
      revert hr hleft
      generalize ({ s.answer name text with pending := [] } : Session).leaveInput (listener 0) = x
      obtain ⟨left, events⟩ := x
      intro hr hleft
      dsimp only at hr hleft
      by_cases hresume : left.state ≠ .idle ∧ s.resume = true
      · rw [if_pos hresume] at hr
        exact (hleft.mode .running RunState.noConfusion left.pauseRequested).runLoop hg hl (eq_of_replied hr)
      · rw [if_neg hresume] at hr
        cases hr
        exact .inl hleft
  · rw [provideInput_of_ne hpaused] at hr
    cases hr
    exact .inl h

/-- A step of a run that is going on. -/
theorem step (h : s.OnCourse setup) (hg : setup.program.main.Sound) (hidle : s.state ≠ .idle) {allowance : Nat}
    {listener : Listener} (hl : listener.Patient) {r : Reply} (hr : s.step allowance listener = some r) :
    r.session.OnCourse setup ∨ Failed r.events := by
  have hblock : replied (Session.executeStep allowance (listener 0) { s with state := .stepping }) = some r →
      r.session.OnCourse setup ∨ Failed r.events := fun hreply =>
    (h.mode .stepping RunState.noConfusion s.pauseRequested).executeStep hg (.inr rfl) (hl 0)
      (eq_of_replied hreply)
  unfold Session.step at hr
  cases hstate : s.state with
  | idle => exact absurd hstate hidle
  | paused =>
    rw [hstate] at hr
    cases hr
    exact .inl h
  | running =>
    rw [hstate] at hr
    exact hblock hr
  | stepping =>
    rw [hstate] at hr
    exact hblock hr

/-- An unbroken stretch of a run that is going on. -/
theorem run (h : s.OnCourse setup) (hg : setup.program.main.Sound) (hidle : s.state ≠ .idle) {allowance : Nat}
    {listener : Listener} (hl : listener.Patient) {r : Reply} (hr : s.run allowance listener = some r) :
    r.session.OnCourse setup ∨ Failed r.events := by
  have hstretch : replied (Session.runLoop allowance listener allowance 0 [] { s with state := .running }) = some r →
      r.session.OnCourse setup ∨ Failed r.events := fun hreply =>
    (h.mode .running RunState.noConfusion s.pauseRequested).runLoop hg hl (eq_of_replied hreply)
  unfold Session.run at hr
  cases hstate : s.state with
  | idle => exact absurd hstate hidle
  | paused =>
    rw [hstate] at hr
    cases hr
    exact .inl ⟨h.setup_eq, h.not_asked, h.located, RunState.noConfusion⟩
  | running =>
    rw [hstate] at hr
    exact hstretch hr
  | stepping =>
    rw [hstate] at hr
    exact hstretch hr

/-- A sound chart has a block to begin with. -/
theorem begin_eq_reset (hs : s.setup = setup) (hg : setup.program.main.Sound) : s.begin = { session := s.reset } := by
  obtain ⟨id, hid⟩ := (sound_of_setup hs hg).start
  exact begin_of_start (by rw [hid]; exact Option.some_ne_none id)

/-- The beginning of an unbroken run. -/
theorem start (hs : s.setup = setup) (hg : setup.program.main.Sound) {allowance : Nat} {listener : Listener}
    (hl : listener.Patient) {r : Reply} (hr : s.start allowance listener = some r) :
    r.session.OnCourse setup ∨ Failed r.events := by
  unfold Session.start at hr
  rw [begin_eq_reset hs hg] at hr
  exact (reset hs hg RunState.noConfusion).runLoop hg hl (eq_of_replied hr)

/-- A command with which a run begins. -/
theorem of_begins (hs : s.setup = setup) (hg : setup.program.main.Sound) {c : Command} (hc : c.begins s = true)
    {allowance : Nat} {listener : Listener} (hl : listener.Patient) {r : Reply}
    (hr : s.perform allowance listener c = some r) : r.session.OnCourse setup ∨ Failed r.events := by
  have hidle : (!s.isRunning) = true → s.state = .idle := by
    intro h
    simpa [isRunning] using h
  cases c with
  | start => exact start hs hg hl hr
  | step =>
    change s.step allowance listener = some r at hr
    unfold Session.step at hr
    rw [hidle hc, begin_eq_reset hs hg] at hr
    exact (reset hs hg RunState.noConfusion).executeStep hg (.inr rfl) (hl 0) (eq_of_replied hr)
  | run =>
    change s.run allowance listener = some r at hr
    rw [run_eq_start (hidle hc)] at hr
    exact start hs hg hl hr
  | _ => cases hc

/-- A command that lets a run go on. -/
theorem perform (h : s.OnCourse setup) (hg : setup.program.main.Sound) (hs : s.Coherent) {c : Command}
    (hc : c.goesOn = true) (hbegins : c.begins s = false) {allowance : Nat} {listener : Listener}
    (hl : listener.Patient) {r : Reply} (hr : s.perform allowance listener c = some r) :
    r.session.OnCourse setup ∨ Failed r.events := by
  have hidle : (!s.isRunning) = false → s.state ≠ .idle := by
    intro hrunning
    simpa [isRunning] using hrunning
  cases c with
  | step => exact h.step hg (hidle hbegins) hl hr
  | run => exact h.run hg (hidle hbegins) hl hr
  | provideInput text => exact h.provideInput hg hs hl hr
  | requestPause =>
    cases hr
    exact .inl ⟨h.setup_eq, h.not_asked, h.located, h.arrived⟩
  | _ => cases hc

end OnCourse

/-! ### Runs -/

/-- **An undisturbed run of a sound program stays on course until it fails**, by induction on what is done. -/
theorem Undisturbed.onCourse (hg : setup.program.main.Sound) (h : Undisturbed setup es s) :
    s.OnCourse setup ∨ Failed es := by
  induction h with
  | begun h hc hl hr => exact OnCourse.of_begins h.setup_eq hg hc hl hr
  | hurriedStart q hq h hl hbegin hr =>
    rw [begin_of_start (start_of_begin hbegin)] at hr
    exact ((OnCourse.reset h.setup_eq hg RunState.noConfusion).accept hq).runLoop hg hl (eq_of_replied hr)
  | hurriedStep q hq h hl _ hbegin hr =>
    rw [begin_of_start (start_of_begin hbegin)] at hr
    exact ((OnCourse.reset h.setup_eq hg RunState.noConfusion).accept hq).executeStep hg (.inr rfl) (hl 0)
      (eq_of_replied hr)
  | operated h hc hbegins hl hr ih =>
    obtain ⟨marks, hhistory⟩ := h.history
    rcases ih with hs | ⟨message, hmem⟩
    · have hcoherent := hhistory.moments.1.coherent (coherent_new setup)
      rcases hs.perform hg hcoherent hc hbegins hl hr with hr | ⟨message, hmem⟩
      · exact .inl hr
      · exact .inr ⟨message, List.mem_append_right _ hmem⟩
    · exact .inr ⟨message, List.mem_append_left _ hmem⟩
  | requested q hq _ ih =>
    rcases ih with hs | hfailed
    · exact .inl (hs.accept hq)
    · exact .inr hfailed

/-- **A program that passes the checks does not get stuck.**  Whatever the machine in which a function is called or a
block of the main chart is executed, no block is looked for in vain.  A block of any chart that has two branches goes
where its first edge with the tag of the outcome leads, the labels and the order of the other edges notwithstanding.
A call gives a value only if its body was walked to an end block.  And a run that is over, though nobody asked for
its end or set it back and nothing failed, stands at an end block of the main chart. -/
theorem arrives_of_validate {setup : Setup} (hp : setup.program.validate = .ok ()) :
    (∀ limit allowance room name arguments m id n,
      Machine.call setup.program limit allowance room name arguments m ≠ .failed (.blockNotFound id) n) ∧
    (∀ limit allowance b m id n,
      Machine.executeMain setup.program limit allowance b m ≠ .failed (.blockNotFound id) n) ∧
    (∀ g ∈ setup.program.charts, ∀ b ∈ g.blocks, b.kind.isBranching = true →
      ∃ yes no, g.taggedEdge? b.id .whenTrue = some yes ∧ g.taggedEdge? b.id .whenFalse = some no ∧
        ∀ env, Machine.execute env g b = Machine.testBlock env b >>= fun outcome =>
          pure (.next (some (if outcome then yes else no).target))) ∧
    (∀ limit allowance room name arguments v m n,
      Machine.call setup.program limit allowance room name arguments m = .done v n →
      ∃ a k, Machine.admission setup.program limit room name arguments = .ok a ∧
        Machine.Walk
          (Machine.execute (Machine.environment (Machine.call setup.program limit allowance a.room)) a.function.body)
          a.function.body a.finish (some a.start) (m.enter (a.function.frame name arguments)) (some a.finish) k ∧
        (∃ b ∈ a.function.body.blocks, b.kind = .finish ∧ b.id = a.finish) ∧
        v = a.function.result k.scope.top? ∧ n = k.leave m.loops) ∧
    ∀ es s, Undisturbed setup es s → s.state = .idle → (∀ message, Event.error message ∉ es) →
      ∃ b ∈ setup.program.main.blocks, s.currentBlock? = some b ∧ b.kind = .finish := by
  have hmain : setup.program.main.Sound := setup.program.sound_of_validate hp List.mem_cons_self
  have hcalls := fun limit allowance room => Machine.call_finds hp limit allowance room
  refine ⟨?_, ?_, ?_, ?_, ?_⟩
  · intro limit allowance room name arguments m
    exact hcalls limit allowance room name arguments m
  · intro limit allowance b m
    exact Machine.execute_finds (hcalls limit allowance limit) setup.program.main b m
  · intro g hg b hb hkind
    exact (setup.program.sound_of_validate hp hg).execute_branching hb hkind
  · intro limit allowance room name arguments v m n h
    exact Machine.call_walks hp h
  · intro es s h hidle hnone
    rcases h.onCourse hmain with hs | ⟨message, hmem⟩
    · obtain ⟨b, hb, hkind⟩ := hs.arrived hidle
      obtain ⟨id, -, hfound⟩ := Option.bind_eq_some_iff.mp hb
      unfold program at hfound
      rw [hs.setup_eq] at hfound
      exact ⟨b, (Graph.mem_of_block? hfound).1, hb, hkind⟩
    · exact absurd hmem (hnone message)

/-- A chart that asks for a number and calls a function unless it is zero, and the function, which sets it to zero.
The numbers of the blocks are not their places, and the labels of the edges say the contrary of their tags. -/
def clearing : Setup :=
  { program :=
      { main :=
          { blocks := [⟨40, .start, ""⟩, ⟨7, .input, "x"⟩, ⟨12, .conditional, "x"⟩,
              ⟨3, .functionCall, "x = clear(x)"⟩, ⟨0, .finish, ""⟩]
            edges := [⟨40, 7, none, none⟩, ⟨7, 12, none, none⟩, ⟨12, 0, some "True", some .whenFalse⟩,
              ⟨12, 3, some "False", some .whenTrue⟩, ⟨3, 0, none, none⟩] }
        functions := FunctionTable.ofList [
          { name := "clear", parameters := [⟨"n", .int⟩], returnType := .int, returnVariable := some "n",
            body :=
              { blocks := [⟨9, .start, ""⟩, ⟨5, .loop, "n"⟩, ⟨8, .assignment, "n = 0"⟩, ⟨6, .finish, ""⟩]
                edges := [⟨9, 5, none, none⟩, ⟨5, 6, none, some .whenFalse⟩, ⟨5, 8, none, some .whenTrue⟩,
                  ⟨8, 5, none, none⟩] } }] } }

/-- The run goes through the function and arrives at the end block. -/
theorem arrives_of_validate_clearing :
    clearing.program.validate = .ok () ∧
      ∃ es s, Undisturbed clearing es s ∧ s.valueOf? "x" = some (.int 0) ∧
        ∃ b ∈ clearing.program.main.blocks, s.currentBlock? = some b ∧ b.kind = .finish := by
  let waiting : Session :=
    { setup := clearing, current := some 7, state := .paused, pending := ["x"], inputBlock := some 7,
      resume := true }
  let final : Session :=
    { setup := clearing, current := some 0, machine := { scope := { globals := [("x", .int 0)] } } }
  have hp : clearing.program.validate = .ok () := by cbv
  have hpatient : Listener.silent.Patient := fun _ => ⟨rfl, rfl⟩
  have hstart : (new clearing).perform 20 .silent .start =
      some { session := waiting, events := [.step ⟨40, .start, ""⟩ [] "", .inputRequired "x"] } := by rfl
  have hanswer : waiting.perform 20 .silent (.provideInput "2") =
      some { session := final
             events := [.step ⟨7, .input, "x"⟩ [("x", .int 2)] "", .step ⟨12, .conditional, "x"⟩ [("x", .int 2)] "",
               .step ⟨3, .functionCall, "x = clear(x)"⟩ [("x", .int 0)] "", .complete] } := by cbv
  have h : Undisturbed clearing _ final := .operated (.begun .opened rfl hpatient hstart) rfl rfl hpatient hanswer
  exact ⟨hp, _, final, h, rfl, (arrives_of_validate hp).2.2.2.2 _ _ h rfl (by simp)⟩

end Session

end Flowchart
