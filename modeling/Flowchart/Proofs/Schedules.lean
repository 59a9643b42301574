import Flowchart.Proofs.Allowance
import Flowchart.Session.Operations
import Mathlib

/-!
# A run does not depend on how it is driven

A host may let a run go on block by block or without a break, and change its mind as often as it likes: it may
ask for a pause between two operations, or while it is being told of a block, and it may ask for a step or for
an unbroken run while a value is wanted.  None of this shows in what happens.

* `Session.Attended` — a run under the care of a host, from the first operation to the end of the run: `Move`
  is one operation, and every operation may have an allowance and pauses of its own.
* `Session.calm` — a session without regard to how it is driven.  `executeStep_calm` says that a block does not
  look at what `calm` forgets.
* `Session.Beats` — the run itself: blocks and answers, one after the other.  `Beats.unique` says that there is
  only one way to the end, and **`Move.beats`** that every operation is made of beats.
* **`Session.attended_unique`** — two hosts who give the same answers see the same events and find the same
  output, the same variables and the same current block at the end.
-/

namespace Flowchart

/-- A host that asks for nothing but pauses, at the blocks that it chooses. -/
def Listener.pausing (pauses : Nat → Bool) : Listener := fun n => { pause := pauses n }

namespace Session

/-! ### Hosts without a wish to stop -/

/-- One operation of a host that means to see the run through: the answers that are still to be given, the
session, the events reported, the answers left, and the session after the operation. -/
inductive Move : List String → Session → List Event → List String → Session → Prop where
  | step {allowance : Nat} {pauses : Nat → Bool} {answers : List String} {s : Session} {r : Reply}
      (h : s.step allowance (.pausing pauses) = some r) : Move answers s r.events answers r.session
  | run {allowance : Nat} {pauses : Nat → Bool} {answers : List String} {s : Session} {r : Reply}
      (h : s.run allowance (.pausing pauses) = some r) : Move answers s r.events answers r.session
  /-- An unbroken run is begun, and a request to pause arrives before its first block. -/
  | preempted {allowance : Nat} {pauses : Nat → Bool} {answers : List String} {s t : Session} {es : List Event}
      (hs : s.state = .idle) (hbegin : s.begin.result = .ok ())
      (h : runLoop allowance (.pausing pauses) allowance 0 []
        { s.begin.session with state := .running, pauseRequested := true } = some (t, es)) :
      Move answers s es answers t
  /-- The next answer is given, which is done only while a value is wanted. -/
  | answer {allowance : Nat} {pauses : Nat → Bool} {text : String} {answers : List String} {s : Session}
      {r : Reply} (hs : s.state = .paused) (h : s.provideInput allowance (.pausing pauses) text = some r) :
      Move (text :: answers) s r.events answers r.session

/-- What a host does from some session on until the run is over: the answers that it has, the session, all
events that are reported, and the session in which the run is over.  Requests to pause may be made between any
two operations. -/
inductive Attended : List String → Session → List Event → Session → Prop where
  | pause {answers : List String} {s t : Session} {es : List Event}
      (h : Attended answers s.requestPause es t) : Attended answers s es t
  | last {answers left : List String} {s t : Session} {es : List Event}
      (h : Move answers s es left t) (hover : t.state = .idle) : Attended answers s es t
  | more {answers left : List String} {s u t : Session} {es es' : List Event}
      (h : Move answers s es left u) (hgoing : u.state ≠ .idle) (h' : Attended left u es' t) :
      Attended answers s (es ++ es') t

/-! ### What a block does not look at -/

/-- The session without regard to how it is driven: whether blocks are executed without a break, whether they
will be once a value is there, and whether a pause was asked for. -/
def calm (s : Session) : Session :=
  { s with
    state := if s.state = .running then .stepping else s.state
    resume := false
    pauseRequested := false }

/-- The session after an operation, calmed, with the events of the operation. -/
def calmed (x : Session × List Event) : Session × List Event := (x.1.calm, x.2)

theorem calm_of_running {s : Session} (h : s.state = .running) : s.calm.state = .stepping := by
  show (if s.state = .running then RunState.stepping else s.state) = .stepping
  rw [if_pos h]

theorem calm_state_of_ne {s : Session} (h : s.state ≠ .running) : s.calm.state = s.state := by
  show (if s.state = .running then RunState.stepping else s.state) = s.state
  rw [if_neg h]

theorem halt_calm (s : Session) : calmed s.halt = calmed s.calm.halt := rfl

theorem await_calm (id : BlockId) (names : List String) (s : Session) :
    calmed (s.await id names) = calmed (s.calm.await id names) := rfl

theorem accept_pause_calm (b : Bool) (s : Session) : (s.accept { pause := b }).calm = s.calm := by
  simp [accept, calm]

theorem calm_calm (s : Session) : s.calm.calm = s.calm := by
  unfold calm
  cases s.state <;> rfl

theorem arrive_calm (b : Bool) (blk : Block) (s : Session) :
    calmed (s.arrive { pause := b } blk) = calmed (s.calm.arrive {} blk) := by
  have hnext : (s.accept { pause := b }).nextBlock? = s.nextBlock? := rfl
  have hnext' : (s.calm.accept {}).nextBlock? = s.nextBlock? := rfl
  unfold arrive
  dsimp only
  rw [hnext, hnext']
  cases s.nextBlock? with
  | some _ =>
    show ((s.accept { pause := b }).calm, [Event.step blk s.snapshot s.output]) =
      ((s.calm.accept {}).calm, [Event.step blk s.snapshot s.output])
    rw [accept_pause_calm, accept_nothing, calm_calm]
  | none =>
    have hhalt : (s.accept { pause := b }).halt.1.calm = (s.calm.accept {}).halt.1.calm := by
      simp [accept, calm, halt, clearRequests, Machine.clearStop]
    show ((s.accept { pause := b }).halt.1.calm, _) = ((s.calm.accept {}).halt.1.calm, _)
    rw [hhalt]
    rfl

/-- **A block does not look at how the session is driven**, and a request to pause does not change it. -/
theorem executeStep_calm (allowance : Nat) (b : Bool) (s : Session) :
    (s.executeStep allowance { pause := b }).map calmed = (s.calm.executeStep allowance {}).map calmed := by
  unfold executeStep
  have hnext : s.calm.nextBlock? = s.nextBlock? := rfl
  have hstop : s.calm.machine.stopRequested = s.machine.stopRequested := rfl
  have hmain : ∀ blk, Machine.executeMain s.calm.program s.calm.setup.callLimit allowance blk s.calm.machine =
      Machine.executeMain s.program s.setup.callLimit allowance blk s.machine := fun _ => rfl
  rw [hstop, hnext]
  by_cases hs : s.machine.stopRequested = true
  · rw [if_pos hs, if_pos hs]
    exact congrArg some (halt_calm s)
  rw [if_neg hs, if_neg hs]
  cases s.nextBlock? with
  | none => exact congrArg some (halt_calm s)
  | some blk =>
    dsimp only
    rw [hmain]
    cases Machine.executeMain s.program s.setup.callLimit allowance blk s.machine with
    | done flow m =>
      cases flow with
      | next target => exact congrArg some (arrive_calm b blk { s with machine := m, current := target })
      | awaitInput names => exact congrArg some (await_calm blk.id names { s with machine := m })
    | failed f m => cases f <;> rfl
    | unfinished => rfl

/-! ### Answers -/

/-- The session with one more answer, blocks left aside that would be executed afterwards. -/
def absorb (text : String) (s : Session) : Session × List Event :=
  match s.pending with
  | [] => (s, [])
  | name :: [] => { s.answer name text with pending := [] }.leaveInput {}
  | name :: next :: rest => ({ s.answer name text with pending := next :: rest }, [.inputRequired next])

theorem leaveInput_calm (b : Bool) (s : Session) :
    calmed (s.leaveInput { pause := b }) = calmed (s.calm.leaveInput {}) := by
  have hblock : s.calm.inputBlock.bind s.calm.program.main.block? =
      s.inputBlock.bind s.program.main.block? := rfl
  unfold leaveInput
  dsimp only
  rw [hblock]
  cases s.inputBlock.bind s.program.main.block? with
  | some blk => exact arrive_calm b blk _
  | none =>
    have hnext : (Session.nextBlock? { s.calm with inputBlock := none, resume := false, state := .stepping }) =
        Session.nextBlock? { s with inputBlock := none, resume := false, state := .stepping } := rfl
    rw [hnext]
    cases Session.nextBlock? { s with inputBlock := none, resume := false, state := .stepping } with
    | some _ => rfl
    | none => rfl

theorem arrive_state {r : Requests} {blk : Block} {s : Session} (h : (s.arrive r blk).1.state ≠ .idle) :
    (s.arrive r blk).1.state = s.state := by
  unfold arrive at h ⊢
  dsimp only at h ⊢
  cases hn : (s.accept r).nextBlock? with
  | some _ => rfl
  | none =>
    rw [hn] at h
    exact absurd rfl h

/-- After the last answer the session stands between two blocks, unless the run is over. -/
theorem leaveInput_state {r : Requests} {s : Session} (h : (s.leaveInput r).1.state ≠ .idle) :
    (s.leaveInput r).1.state = .stepping := by
  unfold leaveInput at h ⊢
  dsimp only at h ⊢
  cases hb : s.inputBlock.bind s.program.main.block? with
  | some blk =>
    rw [hb] at h
    exact arrive_state h
  | none =>
    rw [hb] at h
    dsimp only at h ⊢
    cases hn : Session.nextBlock? { s with inputBlock := none, resume := false, state := .stepping } with
    | some _ => rfl
    | none =>
      rw [hn] at h
      exact absurd rfl h

theorem absorb_calm (text : String) (s : Session) : calmed (s.absorb text) = calmed (s.calm.absorb text) := by
  have hpending : s.calm.pending = s.pending := rfl
  unfold absorb
  rw [hpending]
  match hp : s.pending with
  | [] => exact congrArg (·, []) (calm_calm s).symm
  | name :: [] => exact leaveInput_calm false _
  | name :: next :: rest => exact congrArg (·, [Event.inputRequired next]) (calm_calm _).symm

/-! ### The run itself -/

/-- A run from one session to another, as a row of beats: a block is executed, or an answer is taken. -/
inductive Beats : List String → Session → List Event → List String → Session → Prop where
  | rest {answers : List String} {s : Session} : Beats answers s [] answers s
  | block {allowance : Nat} {answers left : List String} {s t u : Session} {es es' : List Event}
      (hs : s.state = .stepping) (h : s.executeStep allowance {} = some (t, es))
      (h' : Beats answers t.calm es' left u) : Beats answers s (es ++ es') left u
  | answer {text : String} {answers left : List String} {s u : Session} {es' : List Event}
      (hs : s.state = .paused) (h' : Beats answers (s.absorb text).1.calm es' left u) :
      Beats (text :: answers) s ((s.absorb text).2 ++ es') left u

theorem Beats.trans {answers left left' : List String} {s t u : Session} {es es' : List Event}
    (h : Beats answers s es left t) (h' : Beats left t es' left' u) : Beats answers s (es ++ es') left' u := by
  induction h with
  | rest => exact h'
  | block hs hstep _ ih =>
    rw [List.append_assoc]
    exact .block hs hstep (ih h')
  | answer hs _ ih =>
    rw [List.append_assoc]
    exact .answer hs (ih h')

/-- A block that needs more than the allowance is not executed. -/
theorem executeStep_of_unfinished {allowance : Nat} {r : Requests} {s : Session} {blk : Block}
    (hs : ¬s.machine.stopRequested = true) (hn : s.nextBlock? = some blk)
    (h : Machine.executeMain s.program s.setup.callLimit allowance blk s.machine = .unfinished) :
    s.executeStep allowance r = none := by
  unfold executeStep
  rw [if_neg hs, hn]
  dsimp only
  rw [h]

/-- A block is executed in one way only, whatever the allowances. -/
theorem executeStep_unique {a b : Nat} {r : Requests} {s : Session} {x y : Session × List Event}
    (hx : s.executeStep a r = some x) (hy : s.executeStep b r = some y) : x = y := by
  by_cases hs : s.machine.stopRequested = true
  · unfold executeStep at hx hy
    rw [if_pos hs] at hx hy
    exact Option.some.inj (hx.symm.trans hy)
  cases hn : s.nextBlock? with
  | none =>
    unfold executeStep at hx hy
    rw [if_neg hs, hn] at hx hy
    exact Option.some.inj (hx.symm.trans hy)
  | some blk =>
    -- Both allowances sufficed, so the block has one outcome.
    have hfinished : ∀ {c : Nat} {z : Session × List Event}, s.executeStep c r = some z →
        Machine.executeMain s.program s.setup.callLimit c blk s.machine ≠ .unfinished := by
      intro c z hz hu
      rw [executeStep_of_unfinished hs hn hu] at hz
      cases hz
    have hmain := Machine.executeMain_unique s.program s.setup.callLimit (hfinished hx) (hfinished hy)
    unfold executeStep at hx hy
    rw [if_neg hs, hn] at hx hy
    dsimp only at hx hy
    rw [hmain] at hx
    exact Option.some.inj (hx.symm.trans hy)

/-- **There is one way to the end of a run.** -/
theorem Beats.unique {answers left left' : List String} {s t t' : Session} {es es' : List Event}
    (h : Beats answers s es left t) (h' : Beats answers s es' left' t') (ht : t.state = .idle)
    (ht' : t'.state = .idle) : es = es' ∧ t = t' := by
  induction h generalizing es' with
  | rest =>
    cases h' with
    | rest => exact ⟨rfl, rfl⟩
    | block hs _ _ =>
      rw [ht] at hs
      cases hs
    | answer hs _ =>
      rw [ht] at hs
      cases hs
  | block hs hstep _ ih =>
    cases h' with
    | rest =>
      rw [ht'] at hs
      cases hs
    | block _ hstep' hrest =>
      cases executeStep_unique hstep hstep'
      obtain ⟨he, hst⟩ := ih hrest ht
      exact ⟨by rw [he], hst⟩
    | answer hs' _ =>
      rw [hs] at hs'
      cases hs'
  | answer hs _ ih =>
    cases h' with
    | rest =>
      rw [ht'] at hs
      cases hs
    | block hs' _ _ =>
      rw [hs] at hs'
      cases hs'
    | answer _ hrest =>
      obtain ⟨he, hst⟩ := ih hrest ht
      exact ⟨by rw [he], hst⟩

/-! ### Operations are made of beats -/

/-- One block of an operation is one beat. -/
theorem beat_of_executeStep {allowance : Nat} {b : Bool} {answers : List String} {s t : Session}
    {es : List Event} (hs : s.calm.state = .stepping)
    (h : s.executeStep allowance { pause := b } = some (t, es)) : Beats answers s.calm es answers t.calm := by
  have hcalm := executeStep_calm allowance b s
  rw [h, Option.map_some] at hcalm
  obtain ⟨⟨t', es'⟩, hstep, heq⟩ := Option.map_eq_some_iff.mp hcalm.symm
  obtain ⟨ht, he⟩ := Prod.mk.inj heq
  have hbeat : Beats answers s.calm (es' ++ []) answers t'.calm := .block hs hstep .rest
  rw [List.append_nil] at hbeat
  change t'.calm = t.calm at ht
  change es' = es at he
  rw [ht, he] at hbeat
  exact hbeat

/-- **An unbroken stretch is a row of beats**, by induction on the blocks that it may take. -/
theorem beats_of_runLoop (answers : List String) {allowance : Nat} {pauses : Nat → Bool} {fuel told : Nat}
    {events es : List Event} {s t : Session}
    (h : runLoop allowance (.pausing pauses) fuel told events s = some (t, es)) :
    ∃ new, es = events.reverse ++ new ∧ Beats answers s.calm new answers t.calm := by
  induction fuel generalizing told events s with
  | zero => cases h
  | succ fuel ih =>
    unfold runLoop at h
    by_cases hs : s.state ≠ .running
    · rw [if_pos hs] at h
      cases h
      exact ⟨[], (List.append_nil _).symm, .rest⟩
    rw [if_neg hs] at h
    have hrun : s.state = .running := Decidable.not_not.mp hs
    by_cases hp : s.pauseRequested = true
    · rw [if_pos hp] at h
      cases h
      have hcalm : calm { s with pauseRequested := false, state := .stepping } = s.calm := by
        unfold calm
        rw [hrun]
        rfl
      refine ⟨[], (List.append_nil _).symm, ?_⟩
      rw [hcalm]
      exact .rest
    rw [if_neg hp] at h
    cases hstep : s.executeStep allowance (Listener.pausing pauses told) with
    | none =>
      rw [hstep] at h
      cases h
    | some x =>
      obtain ⟨u, now⟩ := x
      rw [hstep] at h
      obtain ⟨later, hes, hbeats⟩ := ih h
      refine ⟨now ++ later, ?_, (beat_of_executeStep (calm_of_running hrun) hstep).trans hbeats⟩
      rw [hes, List.reverseAux_eq, List.reverse_append, List.reverse_reverse, List.append_assoc]

/-- A reply is what the loop or the block left. -/
theorem eq_of_replied {moved : Option (Session × List Event)} {r : Reply} (h : replied moved = some r) :
    moved = some (r.session, r.events) := by
  obtain ⟨⟨t, es⟩, hmoved, heq⟩ := Option.map_eq_some_iff.mp h
  rw [hmoved, ← heq]

/-- Going on in either mode comes to the same. -/
theorem calm_of_mode {s : Session} {mode : RunState} (hs : s.state = .running ∨ s.state = .stepping)
    (hmode : mode = .running ∨ mode = .stepping) : calm { s with state := mode } = s.calm := by
  unfold calm
  rcases hs with hs | hs <;> rcases hmode with rfl | rfl <;> rw [hs] <;> rfl

theorem beats_of_step {allowance : Nat} {pauses : Nat → Bool} {answers : List String} {s : Session} {r : Reply}
    (hs : s.state ≠ .idle) (h : s.step allowance (.pausing pauses) = some r) :
    Beats answers s.calm r.events answers r.session.calm := by
  have going : (s.state = .running ∨ s.state = .stepping) →
      replied (executeStep allowance (Listener.pausing pauses 0) { s with state := .stepping }) = some r →
      Beats answers s.calm r.events answers r.session.calm := by
    intro hmode hr
    rw [← calm_of_mode hmode (.inr rfl)]
    exact beat_of_executeStep rfl (eq_of_replied hr)
  unfold step at h
  cases hstate : s.state with
  | idle => exact absurd hstate hs
  | paused =>
    rw [hstate] at h
    cases h
    exact .rest
  | running =>
    rw [hstate] at h
    exact going (.inl hstate) h
  | stepping =>
    rw [hstate] at h
    exact going (.inr hstate) h

theorem beats_of_run {allowance : Nat} {pauses : Nat → Bool} {answers : List String} {s : Session} {r : Reply}
    (hs : s.state ≠ .idle) (h : s.run allowance (.pausing pauses) = some r) :
    Beats answers s.calm r.events answers r.session.calm := by
  have going : (s.state = .running ∨ s.state = .stepping) →
      replied (runLoop allowance (.pausing pauses) allowance 0 [] { s with state := .running }) = some r →
      Beats answers s.calm r.events answers r.session.calm := by
    intro hmode hr
    obtain ⟨new, hes, hbeats⟩ := beats_of_runLoop answers (eq_of_replied hr)
    rw [calm_of_mode hmode (.inl rfl)] at hbeats
    rw [hes]
    exact hbeats
  unfold run at h
  cases hstate : s.state with
  | idle => exact absurd hstate hs
  | paused =>
    rw [hstate] at h
    cases h
    have hcalm : calm { s with state := .paused, resume := true } = s.calm := by
      unfold calm
      rw [hstate]
    show Beats answers s.calm [] answers (calm { s with state := .paused, resume := true })
    rw [hcalm]
    exact .rest
  | running =>
    rw [hstate] at h
    exact going (.inl hstate) h
  | stepping =>
    rw [hstate] at h
    exact going (.inr hstate) h

/-- An answer that was given is taken, and what is executed after the last one is a row of beats as well. -/
theorem beats_of_provideInput {allowance : Nat} {pauses : Nat → Bool} {text : String} {answers : List String}
    {s : Session} {r : Reply} (hs : s.state = .paused)
    (h : s.provideInput allowance (.pausing pauses) text = some r) :
    Beats (text :: answers) s.calm r.events answers r.session.calm := by
  have hpaused : s.calm.state = .paused := by
    rw [calm_state_of_ne (by rw [hs]; exact RunState.noConfusion), hs]
  -- The answer itself is one beat, after which the session is the one that the operation went on from.
  have taken : ∀ {u : Session} {es es' : List Event}, calmed (s.absorb text) = (u.calm, es) →
      Beats answers u.calm es' answers r.session.calm →
      Beats (text :: answers) s.calm (es ++ es') answers r.session.calm := by
    intro u es es' hu hbeats
    rw [absorb_calm] at hu
    obtain ⟨hsession, hevents⟩ := Prod.mk.inj hu
    have hbeat : Beats (text :: answers) s.calm ((s.calm.absorb text).2 ++ es') answers r.session.calm :=
      .answer hpaused (hsession ▸ hbeats)
    rw [hevents] at hbeat
    exact hbeat
  unfold provideInput at h
  rw [hs] at h
  match hp : s.pending with
  | [] =>
    rw [hp] at h
    cases h
    have hu : calmed (s.absorb text) = (s.calm, []) := by
      unfold absorb
      rw [hp]
      rfl
    exact taken hu .rest
  | name :: next :: rest =>
    rw [hp] at h
    cases h
    have hu : calmed (s.absorb text) =
        (calm { s.answer name text with pending := next :: rest }, [.inputRequired next]) := by
      unfold absorb
      rw [hp]
      rfl
    exact taken hu .rest
  | name :: [] =>
    rw [hp] at h
    dsimp only at h
    have hu : calmed (s.absorb text) =
        calmed ({ s.answer name text with pending := [] }.leaveInput (Listener.pausing pauses 0)) := by
      have habsorb : s.absorb text = { s.answer name text with pending := [] }.leaveInput {} := by
        unfold absorb
        rw [hp]
      rw [habsorb, leaveInput_calm false]
      exact (leaveInput_calm (pauses 0) _).symm
    revert h hu
    have hstate := @leaveInput_state (Listener.pausing pauses 0) { s.answer name text with pending := [] }
    revert hstate
    generalize { s.answer name text with pending := [] }.leaveInput (Listener.pausing pauses 0) = x
    obtain ⟨left, events⟩ := x
    intro hstate h hu
    dsimp only at h hstate
    by_cases hresume : left.state ≠ .idle ∧ s.resume = true
    · rw [if_pos hresume] at h
      obtain ⟨new, hes, hbeats⟩ := beats_of_runLoop answers (eq_of_replied h)
      rw [calm_of_mode (.inr (hstate hresume.1)) (.inl rfl)] at hbeats
      rw [hes, List.reverse_reverse]
      exact taken hu hbeats
    · rw [if_neg hresume] at h
      cases h
      have hbeats := taken hu .rest
      rw [List.append_nil] at hbeats
      exact hbeats

/-- **An operation during a run is a row of beats.** -/
theorem Move.beats {answers left : List String} {s t : Session} {es : List Event}
    (h : Move answers s es left t) (hs : s.state ≠ .idle) : Beats answers s.calm es left t.calm := by
  cases h with
  | step h => exact beats_of_step hs h
  | run h => exact beats_of_run hs h
  | preempted hidle _ _ => exact absurd hidle hs
  | answer hpaused h => exact beats_of_provideInput hpaused h

/-! ### Whole runs -/

/-- The session at the beginning of a run, before its first block. -/
def opened (s : Session) : Session := { s.reset with state := .stepping }

theorem begin_state (s : Session) : s.begin.session.state = .idle := by
  unfold begin
  dsimp only
  cases s.reset.current <;> rfl

theorem begin_of_start {s : Session} (h : s.program.main.start? ≠ none) : s.begin = { session := s.reset } := by
  unfold begin
  have hcurrent : s.reset.current = s.program.main.start? := rfl
  dsimp only
  rw [hcurrent]
  cases hstart : s.program.main.start? with
  | none => exact absurd hstart h
  | some id => rfl

theorem begin_of_no_start {s : Session} (h : s.program.main.start? = none) :
    s.begin.result = .error .noStart := by
  unfold begin
  have hcurrent : s.reset.current = s.program.main.start? := rfl
  dsimp only
  rw [hcurrent, h]

/-- **The first operation begins the run.** -/
theorem Move.run_of_idle {answers left : List String} {s t : Session} {es : List Event}
    (h : Move answers s es left t) (hs : s.state = .idle) :
    (s.program.main.start? = none ∧ es = s.begin.events ∧ t = s.begin.session) ∨
    (s.program.main.start? ≠ none ∧ Beats answers s.opened es left t.calm) := by
  by_cases hstart : s.program.main.start? = none
  · left
    have hbegin := begin_of_no_start hstart
    cases h with
    | step h =>
      unfold Session.step at h
      rw [hs] at h
      dsimp only at h
      rw [hbegin] at h
      cases h
      exact ⟨hstart, rfl, rfl⟩
    | run h =>
      unfold Session.run Session.start at h
      rw [hs] at h
      dsimp only at h
      rw [hbegin] at h
      cases h
      exact ⟨hstart, rfl, rfl⟩
    | preempted _ hok _ =>
      rw [hbegin] at hok
      cases hok
    | answer hpaused _ =>
      rw [hs] at hpaused
      cases hpaused
  · right
    refine ⟨hstart, ?_⟩
    have hbegin := begin_of_start hstart
    cases h with
    | step h =>
      unfold Session.step at h
      rw [hs] at h
      dsimp only at h
      rw [hbegin] at h
      exact beat_of_executeStep (s := s.opened) rfl (eq_of_replied h)
    | run h =>
      unfold Session.run Session.start at h
      rw [hs] at h
      dsimp only at h
      rw [hbegin] at h
      obtain ⟨new, hes, hbeats⟩ := beats_of_runLoop answers (eq_of_replied h)
      rw [hes]
      exact hbeats
    | preempted _ _ h =>
      rw [hbegin] at h
      obtain ⟨new, hes, hbeats⟩ := beats_of_runLoop answers h
      rw [hes]
      exact hbeats
    | answer hpaused _ =>
      rw [hs] at hpaused
      cases hpaused

/-- From the middle of a run to its end: beats, whatever the host does. -/
theorem Attended.beats {answers : List String} {s t : Session} {es : List Event} (h : Attended answers s es t)
    (hs : s.state ≠ .idle) : t.state = .idle ∧ ∃ left, Beats answers s.calm es left t.calm := by
  induction h with
  | pause _ ih => exact ih hs
  | last hmove hover => exact ⟨hover, _, hmove.beats hs⟩
  | more hmove hgoing _ ih =>
    obtain ⟨hover, left, hbeats⟩ := ih hgoing
    exact ⟨hover, left, (hmove.beats hs).trans hbeats⟩

/-- **The run under the care of a host.**  From an idle session on, it is over at once, or it is a row of beats
from the beginning of the run. -/
theorem Attended.run_of_idle {answers : List String} {s t : Session} {es : List Event}
    (h : Attended answers s es t) (hs : s.state = .idle) :
    (s.program.main.start? = none ∧ es = s.begin.events ∧ t = s.begin.session) ∨
    (s.program.main.start? ≠ none ∧ t.state = .idle ∧ ∃ left, Beats answers s.opened es left t.calm) := by
  induction h with
  | pause _ ih => exact ih hs
  | last hmove hover =>
    rcases hmove.run_of_idle hs with hnone | ⟨hstart, hbeats⟩
    · exact .inl hnone
    · exact .inr ⟨hstart, hover, _, hbeats⟩
  | more hmove hgoing hrest _ =>
    rcases hmove.run_of_idle hs with ⟨hstart, -, ht⟩ | ⟨hstart, hbeats⟩
    · -- A run that is over at once leaves nothing to go on from.
      rw [ht, begin_state] at hgoing
      exact absurd rfl hgoing
    · obtain ⟨hover, left, hbeats'⟩ := hrest.beats hgoing
      exact .inr ⟨hstart, hover, left, hbeats.trans hbeats'⟩

/-- **Two hosts see the same run.**  Two sessions with one setup are driven, each from an idle state to the end
of the run, by hosts who have the same answers to give and otherwise do as they please: they step, let the run
go on, ask for pauses from outside and while being told of a block, in any order.  Both are told the same
events, and find the same output, the same variables and the same current block. -/
theorem attended_unique {answers : List String} {s₁ s₂ t₁ t₂ : Session} {es₁ es₂ : List Event}
    (hsetup : s₁.setup = s₂.setup) (hidle₁ : s₁.state = .idle) (hidle₂ : s₂.state = .idle)
    (h₁ : Attended answers s₁ es₁ t₁) (h₂ : Attended answers s₂ es₂ t₂) :
    es₁ = es₂ ∧ t₁.output = t₂.output ∧ t₁.snapshot = t₂.snapshot ∧ t₁.current = t₂.current := by
  have hreset : s₁.reset = s₂.reset := reset_eq hsetup
  have hbegin : s₁.begin = s₂.begin := by
    unfold begin
    rw [hreset]
  have hopened : s₁.opened = s₂.opened := by
    unfold opened
    rw [hreset]
  have hmain : s₁.program.main = s₂.program.main := by
    unfold program
    rw [hsetup]
  rcases h₁.run_of_idle hidle₁ with ⟨hstart₁, he₁, ht₁⟩ | ⟨hstart₁, hover₁, left₁, hbeats₁⟩
  · rcases h₂.run_of_idle hidle₂ with ⟨_, he₂, ht₂⟩ | ⟨hstart₂, _⟩
    · rw [he₁, he₂, ht₁, ht₂, hbegin]
      exact ⟨rfl, rfl, rfl, rfl⟩
    · rw [← hmain] at hstart₂
      exact absurd hstart₁ hstart₂
  · rcases h₂.run_of_idle hidle₂ with ⟨hstart₂, _⟩ | ⟨_, hover₂, left₂, hbeats₂⟩
    · rw [← hmain] at hstart₂
      exact absurd hstart₂ hstart₁
    · rw [← hopened] at hbeats₂
      have hidle : ∀ {t : Session}, t.state = .idle → t.calm.state = .idle := by
        intro t ht
        rw [calm_state_of_ne (by rw [ht]; exact RunState.noConfusion), ht]
      obtain ⟨hes, hcalm⟩ := hbeats₁.unique hbeats₂ (hidle hover₁) (hidle hover₂)
      have hmachine : t₁.machine = t₂.machine := by
        show t₁.calm.machine = t₂.calm.machine
        rw [hcalm]
      have hcurrent : t₁.current = t₂.current := by
        show t₁.calm.current = t₂.calm.current
        rw [hcalm]
      refine ⟨hes, ?_, ?_, hcurrent⟩
      · unfold output
        rw [hmachine]
      · unfold snapshot
        rw [hmachine]

/-- A chart that asks for one value. -/
def asking : Setup :=
  { program :=
      { main :=
          { blocks := [⟨0, .start, ""⟩, ⟨1, .input, "x"⟩, ⟨2, .merge, ""⟩, ⟨3, .finish, ""⟩]
            edges := [⟨0, 1, none, none⟩, ⟨1, 2, none, none⟩, ⟨2, 3, none, none⟩] } } }

/-- A host who lets the run go on and gives the answer, and one who goes block by block and asks for a pause
before the last of them. -/
theorem attended_unique_asking :
    ∃ es₁ es₂ t₁ t₂, Attended ["five"] (new asking) es₁ t₁ ∧ Attended ["five"] (new asking) es₂ t₂ ∧
      es₁ = es₂ ∧ t₁.output = t₂.output ∧ t₁.snapshot = t₂.snapshot ∧ t₁.current = t₂.current := by
  let waiting (resume : Bool) : Session :=
    { setup := asking, current := some 1, state := .paused, pending := ["x"], inputBlock := some 1, resume }
  let answered (next : BlockId) (state : RunState) : Session :=
    { setup := asking, machine := { scope := { globals := [("x", .text "five")] } }, current := some next, state }
  let atStart : Event := .step ⟨0, .start, ""⟩ [] ""
  let atInput : Event := .step ⟨1, .input, "x"⟩ [("x", .text "five")] ""
  let atMerge : Event := .step ⟨2, .merge, ""⟩ [("x", .text "five")] ""
  have unbroken : Attended ["five"] (new asking) ([atStart, .inputRequired "x"] ++ [atInput, atMerge, .complete])
      (answered 3 .idle) := by
    have hrun : (new asking).run 9 (.pausing fun _ => false) =
        some { session := waiting true, events := [atStart, .inputRequired "x"] } := by rfl
    have hanswer : (waiting true).provideInput 9 (.pausing fun _ => false) "five" =
        some { session := answered 3 .idle, events := [atInput, atMerge, .complete] } := by cbv
    exact .more (.run hrun) (by decide) (.last (.answer rfl hanswer) rfl)
  have byBlocks : Attended ["five"] (new asking)
      ([atStart] ++ ([.inputRequired "x"] ++ ([atInput] ++ [atMerge, .complete]))) (answered 3 .idle) := by
    have hstart : (new asking).step 9 (.pausing fun _ => false) =
        some
          { session := { (new asking).reset with current := some 1, state := .stepping }, events := [atStart] } := by
      rfl
    have hinput : Session.step 9 (.pausing fun _ => false)
        { (new asking).reset with current := some 1, state := .stepping } =
        some { session := waiting false, events := [.inputRequired "x"] } := by rfl
    have hanswer : (waiting false).provideInput 9 (.pausing fun _ => false) "five" =
        some { session := answered 2 .stepping, events := [atInput] } := by cbv
    have hmerge : (answered 2 .stepping).requestPause.step 9 (.pausing fun _ => true) =
        some { session := answered 3 .idle, events := [atMerge, .complete] } := by cbv
    exact .more (.step hstart) (by decide) (.more (.step hinput) (by decide)
      (.more (.answer rfl hanswer) (by decide) (.pause (.last (.step hmerge) rfl))))
  exact ⟨_, _, _, _, unbroken, byBlocks, attended_unique rfl rfl rfl unbroken byBlocks⟩

end Session

end Flowchart
