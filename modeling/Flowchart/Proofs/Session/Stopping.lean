import Flowchart.Proofs.Cancellation
import Flowchart.Proofs.Session.Coherence
import Flowchart.Proofs.Session.Protocol

/-!
# A request to stop is not lost

A request to stop only sets a flag.  From then on the run has to come to its end without executing anything, but it
may take a while: a pause that was asked for comes first, a value that is wanted is waited for, and the block that
wanted it is left and reported as usual.

* `Session.Aftermath` — what may be done with a session from some moment on, until its run is over.
* `Session.Subsided` — the invariant under a request: which answers were taken, what was reported, and that the
  request still stands.  Its lemmas are the ways in which a run can go on, `Subsided.answers` and `Subsided.leaves`
  for answers, `Subsided.stretch` for all the others.
* **`Session.stopped_of_moments`** — a request that stands before a block, and one that is noticed inside a call.
-/

namespace Flowchart

/-! ### Answers one after the other -/

/-- The scope once the first ones of these variables have got their answers. -/
def Scope.answered (names texts : List String) (s : Scope) : Scope :=
  (names.zip texts).foldl (fun scope a => scope.set a.1 (Literal.answer a.2.toList)) s

/-- One more answer goes to the first variable that has none. -/
theorem Scope.answered_concat {names texts rest : List String} {name : String} (text : String) (s : Scope)
    (h : names.drop texts.length = name :: rest) :
    s.answered names (texts ++ [text]) = (s.answered names texts).set name (Literal.answer text.toList) := by
  induction texts generalizing names s with
  | nil =>
    rw [List.length_nil, List.drop_zero] at h
    rw [h]
    simp [answered]
  | cons t texts ih =>
    cases names with
    | nil => cases h
    | cons n names => exact ih _ h

/-- A variable that got no answer has the value that it had. -/
theorem Scope.get?_answered {names texts : List String} {name : String} (s : Scope)
    (h : name ∉ names.take texts.length) : (s.answered names texts).get? name = s.get? name := by
  induction texts generalizing names s with
  | nil =>
    cases names <;> rfl
  | cons t texts ih =>
    cases names with
    | nil => rfl
    | cons n names =>
      rw [List.length_cons, List.take_succ_cons, List.mem_cons, not_or] at h
      refine (ih (s.set n (Literal.answer t.toList)) h.2).trans ?_
      rw [Scope.get?_set, if_neg h.1]

namespace Session

/-! ### What is done until the run is over -/

/-- What may be done with a session from some moment on, until its run is over, with the answers that are taken
and with the events that are reported: blocks are executed one by one or without a break, answers are given, and
requests of all sorts are made. -/
inductive Aftermath (s : Session) : List String → List Event → Session → Prop where
  | rest : Aftermath s [] [] s
  | requested {texts : List String} {es : List Event} {t : Session} (q : Requests) (h : Aftermath s texts es t)
      (ht : t.state ≠ .idle) : Aftermath s texts es (t.accept q)
  | stepped {allowance : Nat} {listener : Listener} {texts : List String} {es : List Event} {t : Session} {r : Reply}
      (h : Aftermath s texts es t) (ht : t.state ≠ .idle) (hr : t.step allowance listener = some r) :
      Aftermath s texts (es ++ r.events) r.session
  | ran {allowance : Nat} {listener : Listener} {texts : List String} {es : List Event} {t : Session} {r : Reply}
      (h : Aftermath s texts es t) (ht : t.state ≠ .idle) (hr : t.run allowance listener = some r) :
      Aftermath s texts (es ++ r.events) r.session
  | answered {allowance : Nat} {listener : Listener} {texts : List String} {text : String} {es : List Event}
      {t : Session} {r : Reply} (h : Aftermath s texts es t) (ht : t.state = .paused)
      (hr : t.provideInput allowance listener text = some r) :
      Aftermath s (texts ++ [text]) (es ++ r.events) r.session
  /-- An answer comes while no value is wanted. -/
  | refused {allowance : Nat} {listener : Listener} {texts : List String} {text : String} {es : List Event}
      {t : Session} {r : Reply} (h : Aftermath s texts es t) (ht : t.state ≠ .idle) (hne : t.state ≠ .paused)
      (hr : t.provideInput allowance listener text = some r) :
      Aftermath s texts (es ++ r.events) r.session
  /-- The moment was in the middle of an unbroken stretch, which goes on. -/
  | continued {allowance fuel told : Nat} {listener : Listener} {texts : List String} {es new : List Event}
      {t u : Session} (h : Aftermath s texts es t) (ht : t.state = .running)
      (hr : runLoop allowance listener fuel told [] t = some (u, new)) : Aftermath s texts (es ++ new) u

/-- What is reported under a request to stop: the further variables of the block that waits, the block itself
once its last answer is there, and the end of the run. -/
def subsiding (s : Session) (given : Nat) (final : Snapshot) (finished : Bool) : List Event :=
  (s.pending.tail.take given).map .inputRequired ++
    (if given = s.pending.length then
      (s.inputBlock.bind s.program.main.block?).toList.map fun b => .step b final s.output
    else []) ++
    if finished then [.complete] else []

/-- A session in which a request to stop stood, and what has become of it. -/
structure Subsided (s : Session) (texts : List String) (es : List Event) (t : Session) : Prop where
  setup_eq : t.setup = s.setup
  output_eq : t.output = s.output
  loops_eq : t.machine.loops = s.machine.loops
  /-- Only the variables that waited have changed: the first ones of them have their answers. -/
  scope_eq : t.machine.scope = s.machine.scope.answered s.pending texts
  given_le : texts.length ≤ s.pending.length
  /-- The others still wait. -/
  waits : t.state = .paused →
    t.pending = s.pending.drop texts.length ∧ t.inputBlock = s.inputBlock ∧ texts.length < s.pending.length
  answered : t.state ≠ .paused → texts.length = s.pending.length
  /-- The request stands until the run is over. -/
  stands : t.state ≠ .idle → t.machine.stopRequested = true
  events_eq : es = s.subsiding texts.length t.snapshot (t.state == .idle)

variable {s t : Session} {texts : List String} {es : List Event}

/-! ### Operations under a request -/

/-- Under a request to stop no block is executed: whatever comes next, the run is over. -/
theorem executeStep_of_stopRequested (ht : t.machine.stopRequested = true) (allowance : Nat) (r : Requests) :
    t.executeStep allowance r = some t.halt := by
  unfold executeStep
  rw [if_pos ht]

/-- An unbroken stretch under a request takes a request to pause, or ends the run. -/
theorem runLoop_of_stopRequested (ht : t.machine.stopRequested = true) (hstate : t.state = .running)
    (allowance : Nat) (listener : Listener) (fuel told : Nat) (events : List Event) :
    runLoop allowance listener (fuel + 2) told events t =
      if t.pauseRequested then some ({ t with pauseRequested := false, state := .stepping }, events.reverse)
      else some (t.halt.1, events.reverse ++ [.complete]) := by
  rw [runLoop, if_neg (fun h => h hstate)]
  by_cases hpause : t.pauseRequested = true
  · rw [if_pos hpause, if_pos hpause]
  · rw [if_neg hpause, if_neg hpause, executeStep_of_stopRequested ht]
    have hhalted : t.halt.1.state ≠ .running := RunState.noConfusion
    dsimp only
    rw [runLoop, if_pos hhalted, List.reverseAux_eq, List.reverse_append, List.reverse_reverse]
    rfl

/-- So it is with a stretch that is known to end. -/
theorem of_runLoop_of_stopRequested (ht : t.machine.stopRequested = true) (hstate : t.state = .running)
    {allowance fuel told : Nat} {listener : Listener} {events new : List Event} {u : Session}
    (h : runLoop allowance listener fuel told events t = some (u, new)) :
    (u = { t with pauseRequested := false, state := .stepping } ∧ new = events.reverse) ∨
      u = t.halt.1 ∧ new = events.reverse ++ [.complete] := by
  match fuel with
  | 0 => cases h
  | 1 =>
    rw [runLoop, if_neg (fun h => h hstate)] at h
    by_cases hpause : t.pauseRequested = true
    · rw [if_pos hpause] at h
      cases h
      exact .inl ⟨rfl, rfl⟩
    · rw [if_neg hpause, executeStep_of_stopRequested ht] at h
      cases h
  | fuel + 2 =>
    rw [runLoop_of_stopRequested ht hstate] at h
    by_cases hpause : t.pauseRequested = true
    · rw [if_pos hpause] at h
      cases h
      exact .inl ⟨rfl, rfl⟩
    · rw [if_neg hpause] at h
      cases h
      exact .inr ⟨rfl, rfl⟩

/-- A single step under a request ends the run. -/
theorem step_of_stopRequested (ht : t.machine.stopRequested = true) (hgoing : t.Going) (allowance : Nat)
    (listener : Listener) : t.step allowance listener = some { session := t.halt.1, events := [.complete] } := by
  have hstep : executeStep allowance (listener 0) { t with state := .stepping } = some t.halt :=
    executeStep_of_stopRequested (t := { t with state := .stepping }) ht allowance (listener 0)
  unfold step
  rcases hgoing with hstate | hstate <;> rw [hstate] <;> dsimp only <;> rw [hstep] <;> rfl

/-! ### The invariant -/

namespace Subsided

/-- Where a request stands, nothing has happened yet. -/
theorem rest (hs : s.Coherent) (hidle : s.state ≠ .idle) (hstop : s.machine.stopRequested = true) :
    Subsided s [] [] s where
  setup_eq := rfl
  output_eq := rfl
  loops_eq := rfl
  scope_eq := by
    unfold Scope.answered
    rw [List.zip_nil_right]
    rfl
  given_le := Nat.zero_le _
  waits := by
    intro hpaused
    obtain ⟨b, names, hw⟩ := hs.waits hpaused
    exact ⟨rfl, rfl, List.length_pos_iff.mpr hw.pending_ne⟩
  answered := by
    intro hne
    rw [(hs.rests hne).1]
  stands := fun _ => hstop
  events_eq := by
    have hblock : (if ([] : List String).length = s.pending.length then
        (s.inputBlock.bind s.program.main.block?).toList.map fun b => Event.step b s.snapshot s.output
        else []) = [] := by
      by_cases hpaused : s.state = .paused
      · obtain ⟨b, names, hw⟩ := hs.waits hpaused
        exact if_neg fun h => hw.pending_ne (List.length_eq_zero_iff.mp h.symm)
      · rw [(hs.rests hpaused).2]
        exact ite_self _
    unfold subsiding
    rw [hblock, beq_eq_false_iff_ne.mpr hidle]
    rfl

/-- Requests of any sort change nothing. -/
theorem accept (h : Subsided s texts es t) (q : Requests) : Subsided s texts es (t.accept q) where
  setup_eq := h.setup_eq
  output_eq := h.output_eq
  loops_eq := h.loops_eq
  scope_eq := h.scope_eq
  given_le := h.given_le
  waits := h.waits
  answered := h.answered
  stands := by
    intro hidle
    show (t.machine.stopRequested || q.stop) = true
    rw [h.stands hidle, Bool.true_or]
  events_eq := h.events_eq

/-- How a run goes on is changed while it does not wait. -/
theorem mode (h : Subsided s texts es t) (hgoing : t.Going) (pause : Bool) {state : RunState}
    (hstate : state = .running ∨ state = .stepping) :
    Subsided s texts es { t with state, pauseRequested := pause } where
  setup_eq := h.setup_eq
  output_eq := h.output_eq
  loops_eq := h.loops_eq
  scope_eq := h.scope_eq
  given_le := h.given_le
  waits := by
    intro hpaused
    change state = .paused at hpaused
    rw [hpaused] at hstate
    rcases hstate with h | h <;> cases h
  answered := fun _ => h.answered hgoing.ne_paused
  stands := fun _ => h.stands hgoing.ne_idle
  events_eq := by
    have hlive : (state == .idle) = (t.state == .idle) := by
      rw [beq_eq_false_iff_ne.mpr hgoing.ne_idle]
      rcases hstate with rfl | rfl <;> rfl
    show es = s.subsiding texts.length t.snapshot (state == .idle)
    rw [hlive]
    exact h.events_eq

/-- The end of a run that does not wait is reported. -/
theorem halt (h : Subsided s texts es t) (hgoing : t.Going) :
    Subsided s texts (es ++ [.complete]) t.halt.1 where
  setup_eq := h.setup_eq
  output_eq := h.output_eq
  loops_eq := h.loops_eq
  scope_eq := h.scope_eq
  given_le := h.given_le
  waits := RunState.noConfusion
  answered := fun _ => h.answered hgoing.ne_paused
  stands := fun hne => absurd rfl hne
  events_eq := by
    have hes := h.events_eq
    unfold subsiding at hes ⊢
    rw [beq_eq_false_iff_ne.mpr hgoing.ne_idle] at hes
    rw [hes]
    exact congrArg (· ++ [Event.complete]) (List.append_nil _)

/-- **Unbroken stretches**, from the beginning or from the middle. -/
theorem stretch (h : Subsided s texts es t) (hstate : t.state = .running) {allowance fuel told : Nat}
    {listener : Listener} {events new : List Event} {u : Session}
    (hr : runLoop allowance listener fuel told events t = some (u, new)) (before : List Event)
    (hes : es = before ++ events.reverse) : Subsided s texts (before ++ new) u := by
  have hgoing : t.Going := .inl hstate
  rcases of_runLoop_of_stopRequested (h.stands hgoing.ne_idle) hstate hr with ⟨rfl, rfl⟩ | ⟨rfl, rfl⟩
  · rw [← hes]
    exact h.mode hgoing false (.inr rfl)
  · rw [← List.append_assoc, ← hes]
    exact h.halt hgoing

/-- **An answer that is not the last one.** -/
theorem answers (h : Subsided s texts es t) (hpaused : t.state = .paused) {name next : String} {rest : List String}
    (hp : t.pending = name :: next :: rest) (text : String) :
    Subsided s (texts ++ [text]) (es ++ [.inputRequired next])
      { t.answer name text with pending := next :: rest } := by
  obtain ⟨hdrop, hblock, hlt⟩ := h.waits hpaused
  rw [hp] at hdrop
  have hrest : next :: rest = s.pending.drop (texts.length + 1) := by
    rw [← List.drop_drop, ← hdrop]
    rfl
  have hmore : texts.length + 1 < s.pending.length := by
    have hlen := congrArg List.length hrest
    rw [List.length_drop, List.length_cons] at hlen
    omega
  have hnext : s.pending.tail.take (texts.length + 1) = s.pending.tail.take texts.length ++ [next] := by
    have htail : s.pending.tail.drop texts.length = next :: rest := by
      rw [List.drop_tail, hrest]
    rw [List.take_add, htail]
    rfl
  have hlength : (texts ++ [text]).length = texts.length + 1 := List.length_append
  exact {
    setup_eq := h.setup_eq
    output_eq := h.output_eq
    loops_eq := h.loops_eq
    scope_eq := by
      show t.machine.scope.set name _ = _
      rw [Scope.answered_concat text _ hdrop.symm, h.scope_eq]
    given_le := by
      rw [hlength]
      exact hlt
    waits := fun _ => ⟨by rw [hlength]; exact hrest, hblock, by rw [hlength]; exact hmore⟩
    answered := fun hne => absurd hpaused hne
    stands := fun _ => h.stands (by rw [hpaused]; exact RunState.noConfusion)
    events_eq := by
      have hes := h.events_eq
      have hlive : (t.state == .idle) = false := by rw [hpaused]; rfl
      unfold subsiding at hes ⊢
      rw [if_neg (Nat.ne_of_lt hlt), hlive] at hes
      rw [hlength, if_neg (Nat.ne_of_lt hmore), hnext]
      show _ = _ ++ [] ++ (if (t.state == .idle) = true then [Event.complete] else [])
      rw [hlive, hes]
      simp }

/-- A block that is reported is followed by the end of the run, if nothing comes after it. -/
theorem arrive (hgoing : t.Going) {b : Block} (h : Subsided s texts (es ++ [.step b t.snapshot t.output]) t)
    (r : Requests) : Subsided s texts (es ++ (t.arrive r b).2) (t.arrive r b).1 := by
  rcases arrive_cases r b t with hx | hx
  · rw [hx]
    exact h.accept r
  · rw [hx]
    have hhalted := (h.accept r).halt hgoing
    rwa [List.append_assoc] at hhalted

/-- **The last answer**, as the session is just afterwards: the block that waited has been reported. -/
theorem last (h : Subsided s texts es t) (hpaused : t.state = .paused) {name : String} (hp : t.pending = [name])
    (text : String) {u : Session} (hsetup : u.setup = t.setup) (hmachine : u.machine = (t.answer name text).machine)
    (hstate : u.state = .stepping) :
    Subsided s (texts ++ [text])
      (es ++ (s.inputBlock.bind s.program.main.block?).toList.map fun b => .step b u.snapshot u.output) u := by
  obtain ⟨hdrop, -, hlt⟩ := h.waits hpaused
  rw [hp] at hdrop
  have hall : (texts ++ [text]).length = s.pending.length := by
    have hlen := congrArg List.length hdrop
    rw [List.length_drop, List.length_singleton] at hlen
    rw [List.length_append, List.length_singleton]
    omega
  have houtput : u.output = s.output := by
    unfold output
    rw [hmachine]
    exact h.output_eq
  have hstop : t.machine.stopRequested = true := h.stands (by rw [hpaused]; exact RunState.noConfusion)
  exact {
    setup_eq := hsetup.trans h.setup_eq
    output_eq := houtput
    loops_eq := by
      rw [hmachine]
      exact h.loops_eq
    scope_eq := by
      rw [hmachine]
      show t.machine.scope.set name _ = _
      rw [Scope.answered_concat text _ hdrop.symm, h.scope_eq]
    given_le := Nat.le_of_eq hall
    waits := fun hwait => by rw [hstate] at hwait; cases hwait
    answered := fun _ => hall
    stands := fun _ => by
      rw [hmachine]
      exact hstop
    events_eq := by
      have hes := h.events_eq
      have hasked : s.pending.tail.take texts.length = s.pending.tail.take s.pending.length := by
        rw [List.length_append, List.length_singleton] at hall
        rw [List.take_of_length_le (by rw [List.length_tail]; omega),
          List.take_of_length_le (by rw [List.length_tail]; omega)]
      unfold subsiding at hes ⊢
      rw [hpaused, if_neg (Nat.ne_of_lt hlt), hasked] at hes
      rw [hall, if_pos rfl, hstate, houtput, hes]
      simp }

/-- Leaving the block that waited ends the run if nothing comes after it. -/
theorem leaves (h : Subsided s texts es t) (hpaused : t.state = .paused) {name : String} (hp : t.pending = [name])
    (text : String) (r : Requests) :
    Subsided s (texts ++ [text]) (es ++ (({ t.answer name text with pending := [] } : Session).leaveInput r).2)
      (({ t.answer name text with pending := [] } : Session).leaveInput r).1 := by
  obtain ⟨-, hblock, -⟩ := h.waits hpaused
  have hfound : (t.answer name text).inputBlock.bind
      ({ t.answer name text with pending := [] } : Session).program.main.block? =
        s.inputBlock.bind s.program.main.block? := by
    show t.inputBlock.bind t.setup.program.main.block? = _
    rw [hblock, h.setup_eq]
    rfl
  have hlast := @last s t texts es h hpaused name hp text
  unfold leaveInput
  dsimp only
  rw [hfound]
  cases hb : s.inputBlock.bind s.program.main.block? with
  | some b =>
    rw [hb] at hlast
    refine arrive (.inr rfl) (hlast (u := {
      t.answer name text with
        pending := [], inputBlock := none, resume := false, state := .stepping
        current := t.program.main.successor? b.id }) rfl rfl rfl) r
  | none =>
    rw [hb] at hlast
    have hleft := hlast
      (u := { t.answer name text with pending := [], inputBlock := none, resume := false, state := .stepping })
      rfl rfl rfl
    rw [Option.toList_none, List.map_nil, List.append_nil] at hleft
    dsimp only
    split
    · rw [List.append_nil]
      exact hleft
    · exact hleft.halt (.inr rfl)

/-- **Answers**, whichever of the variables they are for. -/
theorem provideInput (h : Subsided s texts es t) (hpaused : t.state = .paused) {allowance : Nat}
    {listener : Listener} {text : String} {r : Reply} (hr : t.provideInput allowance listener text = some r) :
    Subsided s (texts ++ [text]) (es ++ r.events) r.session := by
  unfold Session.provideInput at hr
  rw [hpaused] at hr
  match hp : t.pending with
  | [] =>
    obtain ⟨hdrop, -, hlt⟩ := h.waits hpaused
    rw [hp] at hdrop
    exact absurd (List.drop_eq_nil_iff.mp hdrop.symm) (Nat.not_le_of_lt hlt)
  | name :: next :: rest =>
    rw [hp] at hr
    cases hr
    exact h.answers hpaused hp text
  | [name] =>
    rw [hp] at hr
    dsimp only at hr
    have hleft := h.leaves hpaused hp text (listener 0)
    have hstate := @leaveInput_state (listener 0) { t.answer name text with pending := [] }
    revert hr hleft hstate
    generalize ({ t.answer name text with pending := [] } : Session).leaveInput (listener 0) = x
    obtain ⟨left, events⟩ := x
    intro hr hleft hstate
    dsimp only at hr hleft hstate
    by_cases hresume : left.state ≠ .idle ∧ t.resume = true
    · rw [if_pos hresume] at hr
      have hloop := eq_of_replied hr
      have hgoing : left.Going := .inr (hstate hresume.1)
      refine (hleft.mode hgoing left.pauseRequested (.inl rfl)).stretch rfl hloop es ?_
      rw [List.reverse_reverse]
    · rw [if_neg hresume] at hr
      cases hr
      exact hleft

theorem step (h : Subsided s texts es t) (hidle : t.state ≠ .idle) {allowance : Nat} {listener : Listener}
    {r : Reply} (hr : t.step allowance listener = some r) : Subsided s texts (es ++ r.events) r.session := by
  by_cases hpaused : t.state = .paused
  · unfold Session.step at hr
    rw [hpaused] at hr
    cases hr
    rw [List.append_nil]
    exact h
  · have hgoing := going_of_ne hidle hpaused
    rw [step_of_stopRequested (h.stands hidle) hgoing] at hr
    cases hr
    exact h.halt hgoing

theorem run (h : Subsided s texts es t) (hidle : t.state ≠ .idle) {allowance : Nat} {listener : Listener}
    {r : Reply} (hr : t.run allowance listener = some r) : Subsided s texts (es ++ r.events) r.session := by
  unfold Session.run at hr
  by_cases hpaused : t.state = .paused
  · rw [hpaused] at hr
    cases hr
    rw [List.append_nil]
    exact {
      setup_eq := h.setup_eq
      output_eq := h.output_eq
      loops_eq := h.loops_eq
      scope_eq := h.scope_eq
      given_le := h.given_le
      waits := fun _ => h.waits hpaused
      answered := fun hne => h.answered fun _ => hne rfl
      stands := fun _ => h.stands hidle
      events_eq := by
        rw [h.events_eq, hpaused]
        rfl }
  · have hgoing := going_of_ne hidle hpaused
    have hloop : replied (runLoop allowance listener allowance 0 [] { t with state := .running }) = some r := by
      rcases hgoing with hstate | hstate <;> rw [hstate] at hr <;> exact hr
    refine (h.mode hgoing t.pauseRequested (.inl rfl)).stretch rfl (eq_of_replied hloop) es ?_
    exact (List.append_nil es).symm

/-! ### What the invariant says -/

/-- What is reported: that a value is wanted, the block that waited, once its last answer is there, and the end. -/
theorem event_cases (h : Subsided s texts es t) {e : Event} (he : e ∈ es) :
    (∃ name, e = .inputRequired name) ∨
      (texts.length = s.pending.length ∧
        ∃ b, s.inputBlock.bind s.program.main.block? = some b ∧ e = .step b t.snapshot s.output) ∨
      e = .complete := by
  rw [h.events_eq] at he
  unfold subsiding at he
  rcases List.mem_append.mp he with he | he
  · rcases List.mem_append.mp he with he | he
    · obtain ⟨name, -, rfl⟩ := List.mem_map.mp he
      exact .inl ⟨name, rfl⟩
    · split at he
      · next hall =>
        obtain ⟨b, hb, rfl⟩ := List.mem_map.mp he
        exact .inr (.inl ⟨hall, b, Option.mem_toList.mp hb, rfl⟩)
      · cases he
  · split at he
    · exact .inr (.inr (List.mem_singleton.mp he))
    · cases he

theorem error_not_mem (h : Subsided s texts es t) (message : String) : .error message ∉ es := by
  intro he
  rcases h.event_cases he with ⟨name, hname⟩ | ⟨-, b, -, hb⟩ | hcomplete
  · cases hname
  · cases hb
  · cases hcomplete

theorem isStep_events (h : Subsided s texts es t) {e : Event} (he : e ∈ es) (hstep : e.isStep = true) :
    texts.length = s.pending.length ∧
      ∃ b, s.inputBlock.bind s.program.main.block? = some b ∧ e = .step b t.snapshot s.output := by
  rcases h.event_cases he with ⟨name, rfl⟩ | hblock | rfl
  · cases hstep
  · exact hblock
  · cases hstep

/-- A sort of events that none of the wanted values is: as many as the block and the end make. -/
theorem countP_events (h : Subsided s texts es t) {p : Event → Bool} (hp : ∀ name, p (.inputRequired name) = false) :
    es.countP p =
      (if texts.length = s.pending.length then
        (s.inputBlock.bind s.program.main.block?).toList.map fun b => Event.step b t.snapshot s.output
      else []).countP p + (if t.state = .idle then [Event.complete] else []).countP p := by
  have hasked : ((s.pending.tail.take texts.length).map Event.inputRequired).countP p = 0 := by
    rw [List.countP_map]
    exact List.countP_eq_zero.mpr fun name _ => by simp [hp]
  rw [h.events_eq]
  unfold subsiding
  rw [List.countP_append, List.countP_append, hasked, Nat.zero_add]
  simp only [beq_iff_eq]

/-- The block that waited is reported once at the most. -/
theorem countP_isStep (h : Subsided s texts es t) : es.countP Event.isStep ≤ 1 := by
  rw [h.countP_events fun _ => rfl]
  have hend : (if t.state = .idle then [Event.complete] else []).countP Event.isStep = 0 := by
    split <;> rfl
  rw [hend, Nat.add_zero]
  split
  · cases s.inputBlock.bind s.program.main.block? with
    | none => exact Nat.zero_le _
    | some b => exact Nat.le_refl _
  · exact Nat.zero_le _

/-- The end of the run is reported once, and when the run is over. -/
theorem count_complete (h : Subsided s texts es t) :
    es.count .complete = if t.state = .idle then 1 else 0 := by
  unfold List.count
  rw [h.countP_events fun _ => rfl]
  have hblock : (if texts.length = s.pending.length then
      (s.inputBlock.bind s.program.main.block?).toList.map fun b => Event.step b t.snapshot s.output
      else []).countP (· == Event.complete) = 0 := by
    split
    · cases s.inputBlock.bind s.program.main.block? <;> rfl
    · rfl
  rw [hblock, Nat.zero_add]
  split <;> rfl

/-- While a value is wanted, an answer is taken. -/
theorem exists_provideInput (h : Subsided s texts es t) (hpaused : t.state = .paused) {allowance : Nat}
    (hallowance : 2 ≤ allowance) (listener : Listener) (text : String) :
    ∃ r, t.provideInput allowance listener text = some r ∧ r.result = .ok () := by
  obtain ⟨hdrop, -, hlt⟩ := h.waits hpaused
  have hpending : t.pending ≠ [] := by
    rw [hdrop]
    exact fun hnil => absurd (List.drop_eq_nil_iff.mp hnil) (Nat.not_le_of_lt hlt)
  have hsome : ∃ r, t.provideInput allowance listener text = some r := by
    unfold Session.provideInput
    rw [hpaused]
    match hp : t.pending with
    | [] => exact absurd hp hpending
    | name :: next :: rest => exact ⟨_, rfl⟩
    | [name] =>
      dsimp only
      have hleft := h.leaves hpaused hp text (listener 0)
      revert hleft
      generalize ({ t.answer name text with pending := [] } : Session).leaveInput (listener 0) = x
      intro hleft
      by_cases hresume : x.1.state ≠ .idle ∧ t.resume = true
      · obtain ⟨fuel, rfl⟩ := Nat.exists_eq_add_of_le' hallowance
        have hstop : ({ x.1 with state := .running } : Session).machine.stopRequested = true := hleft.stands hresume.1
        rw [if_pos hresume, runLoop_of_stopRequested hstop rfl]
        split <;> exact ⟨_, rfl⟩
      · rw [if_neg hresume]
        exact ⟨_, rfl⟩
  obtain ⟨r, hr⟩ := hsome
  exact ⟨r, hr, provideInput_of_pending hpaused hpending hr⟩

end Subsided

/-- **Whatever is done until the run is over**, it subsides, by induction on what is done. -/
theorem Aftermath.subsided (h : Aftermath s texts es t) (hs : s.Coherent) (hidle : s.state ≠ .idle)
    (hstop : s.machine.stopRequested = true) : Subsided s texts es t := by
  induction h with
  | rest => exact .rest hs hidle hstop
  | requested q _ _ ih => exact ih.accept q
  | stepped _ ht hr ih => exact ih.step ht hr
  | ran _ ht hr ih => exact ih.run ht hr
  | answered _ ht hr ih => exact ih.provideInput ht hr
  | refused _ _ hne hr ih =>
    rw [provideInput_of_ne hne] at hr
    cases hr
    rw [List.append_nil]
    exact ih
  | continued _ ht hr ih => exact ih.stretch ht hr _ (List.append_nil _).symm

/-! ### Requests inside calls -/

/-- A block of the main chart during which a request came to stand was cancelled: no frame is left, and the end of
the run is all that is reported. -/
theorem executeStep_of_cancelled (hg : s.machine.Grounded) (hstop : s.machine.stopRequested = false) {b : Block}
    (hb : s.nextBlock? = some b) {allowance : Nat} {f : Fault} {m : Machine}
    (hm : Machine.executeMain s.program s.setup.callLimit allowance b s.machine = .failed f m)
    (hrequested : m.stopRequested = true) :
    f = .cancelled ∧ m.scope.frames = [] ∧
      ∀ r, s.executeStep allowance r = some (({ s with machine := m } : Session).halt.1, [.complete]) := by
  have hheeds := Machine.executeMain_heeds s.program s.setup.callLimit allowance b s.machine hstop
  have hgrows := Machine.executeMain_grows s.program s.setup.callLimit allowance b s.machine
  rw [hm] at hheeds hgrows
  have hf : f = .cancelled := hheeds.1.mp hrequested
  subst hf
  refine ⟨rfl, (hgrows.grounded hg).frames_eq, fun r => ?_⟩
  unfold executeStep
  rw [if_neg (by rw [hstop]; exact Bool.noConfusion), hb]
  dsimp only
  rw [hm]
  rfl

/-- **A request to stop is not lost.**  Take any moment of a run at which a request stands, and whatever is done
from there until the run is over.  The output and the loops stay as they are; of the variables only those change
that waited and have got their answers; no block is executed, and the only one that is reported is the one that
waited, with its last answer; the request stands as long as the run is going on; the end is reported once, when it
comes, and no error.  And it comes: a step leads to it, unless values are wanted, and then answers are taken.

If no request stands yet, one may come to stand inside a call.  The body that is being executed then fails as
cancelled before its next block; so does every call around it, and no call that fails otherwise or ends with a
value leaves a request behind; every call gives back the variables and loops of its caller; and the block of the
main chart ends the run, with no frame left and nothing reported but the end. -/
theorem stopped_of_moments {setup : Setup} {marks : List Mark} {s : Session} (h : Moments (new setup) marks s)
    (hidle : s.state ≠ .idle) :
    (s.machine.stopRequested = true → ∀ texts es t, Aftermath s texts es t →
      Subsided s texts es t ∧
      (∀ name, name ∉ s.pending.take texts.length → t.valueOf? name = s.valueOf? name) ∧
      (∀ e ∈ es, e.isStep = true → texts.length = s.pending.length ∧
        ∃ b, s.inputBlock.bind s.program.main.block? = some b ∧ e = .step b t.snapshot s.output) ∧
      es.countP Event.isStep ≤ 1 ∧ es.count .complete = (if t.state = .idle then 1 else 0) ∧
      (∀ message, .error message ∉ es) ∧
      (t.state ≠ .idle → ∀ allowance r, t.executeStep allowance r = some (t.halt.1, [.complete])) ∧
      (t.Going → ∀ allowance listener,
        t.step allowance listener = some { session := t.halt.1, events := [.complete] }) ∧
      (t.state = .paused → ∀ allowance listener text, 2 ≤ allowance →
        ∃ r, t.provideInput allowance listener text = some r ∧ r.result = .ok ())) ∧
    (∀ step name g finish id allowance (m : Machine), id ≠ finish → m.poll.stopRequested = true →
      Machine.runBody step name g finish (allowance + 1) (some id) m = .failed .cancelled m.poll) ∧
    (∀ allowance room name arguments (m : Machine), m.stopRequested = false →
      (Machine.call s.program s.setup.callLimit allowance room name arguments m).Heeds m ∧
      (Machine.call s.program s.setup.callLimit allowance room name arguments m).Ends
        fun n => n.scope = m.scope ∧ n.loops = m.loops) ∧
    (s.machine.stopRequested = false → ∀ b, s.nextBlock? = some b → ∀ allowance,
      (∀ flow m, Machine.executeMain s.program s.setup.callLimit allowance b s.machine = .done flow m →
        m.stopRequested = false) ∧
      ∀ f m, Machine.executeMain s.program s.setup.callLimit allowance b s.machine = .failed f m →
        m.stopRequested = true →
          f = .cancelled ∧ m.scope.frames = [] ∧
            ∀ r, s.executeStep allowance r = some (({ s with machine := m } : Session).halt.1, [.complete])) := by
  have hs : s.Coherent := h.coherent (coherent_new setup)
  refine ⟨fun hstop texts es t ha => ?_, ?_, ?_, fun hstop b hb allowance => ⟨?_, ?_⟩⟩
  · have hsub := ha.subsided hs hidle hstop
    refine ⟨hsub, ?_, fun e => hsub.isStep_events, hsub.countP_isStep, hsub.count_complete, hsub.error_not_mem,
      ?_, ?_, ?_⟩
    · intro name hname
      unfold valueOf?
      rw [hsub.scope_eq, Scope.get?_answered _ hname]
    · exact fun ht allowance r => executeStep_of_stopRequested (hsub.stands ht) allowance r
    · exact fun hgoing => step_of_stopRequested (hsub.stands hgoing.ne_idle) hgoing
    · exact fun hpaused allowance listener text hallowance =>
        hsub.exists_provideInput hpaused hallowance listener text
  · exact fun step name g finish id allowance m hid hm => Machine.runBody_of_poll step name g allowance hid hm
  · intro allowance room name arguments m hm
    refine ⟨Machine.call_heeds s.program s.setup.callLimit allowance room name arguments m hm, ?_⟩
    exact (Machine.call_keeps s.program s.setup.callLimit allowance room name arguments m).imp
      fun n hn => ⟨hn.scope_eq, hn.loops_eq⟩
  · intro flow m hm
    have hheeds := Machine.executeMain_heeds s.program s.setup.callLimit allowance b s.machine hstop
    rw [hm] at hheeds
    exact hheeds.1
  · exact fun f m => executeStep_of_cancelled hs.grounded hstop hb

/-- A program whose main chart calls a function once. -/
def callingOnce : Setup :=
  { program :=
      { main :=
          { blocks := [⟨0, .start, ""⟩, ⟨1, .functionCall, "f()"⟩, ⟨2, .finish, ""⟩]
            edges := [⟨0, 1, none, none⟩, ⟨1, 2, none, none⟩] }
        functions :=
          .ofList
            [{ name := "f"
               returnType := .void
               body := { blocks := [⟨0, .start, ""⟩, ⟨1, .finish, ""⟩], edges := [⟨0, 1, none, none⟩] } }] } }

/-- A session that waits for a value is asked to stop by somebody who does not hold it: the answer is taken, a request
to pause comes first, and then the run is over.  And a session is asked to stop while it executes a function. -/
theorem stopped_of_moments_asking :
    (∃ marks s es t, History asking marks s ∧ s.state = .paused ∧ s.machine.stopRequested = true ∧
      Aftermath s ["five"] es t ∧ t.state = .idle ∧ Subsided s ["five"] es t ∧ es.count .complete = 1) ∧
    ∃ marks s b m, History callingOnce marks s ∧ s.machine.stopRequested = false ∧ s.nextBlock? = some b ∧
      Machine.executeMain s.program s.setup.callLimit 9 b s.machine = .failed .cancelled m ∧
      m.stopRequested = true ∧ m.scope.frames = [] ∧
      ∀ r, s.executeStep 9 r = some (({ s with machine := m } : Session).halt.1, [.complete]) := by
  constructor
  · let waiting : Session :=
      { setup := asking, current := some 1, state := .paused, pending := ["x"], inputBlock := some 1 }
    let left : Session :=
      { setup := asking
        machine := { scope := { globals := [("x", .text "five")] }, stopRequested := true }
        current := some 2, state := .stepping }
    have hfirst : (new asking).perform 9 .silent .step =
        some
          { session := { setup := asking, current := some 1, state := .stepping }
            events := [.step ⟨0, .start, ""⟩ [] ""] } := by rfl
    have hsecond : ({ setup := asking, current := some 1, state := .stepping } : Session).perform 9 .silent .step =
        some { session := waiting, events := [.inputRequired "x"] } := by rfl
    have hs : History asking _ (waiting.accept { stop := true }) :=
      .requested _ (.operated (.operated .opened hfirst) hsecond)
    have hanswer : (waiting.accept { stop := true }).provideInput 9 .silent "five" =
        some { session := left, events := [.step ⟨1, .input, "x"⟩ [("x", .text "five")] ""] } := by cbv
    have hrun : (left.accept { pause := true }).run 9 .silent = some { session := left, events := [] } := by rfl
    have hstep : left.step 9 .silent = some { session := left.halt.1, events := [.complete] } := by rfl
    have ha : Aftermath (waiting.accept { stop := true }) ["five"] _ left.halt.1 :=
      .stepped (.ran (.requested { pause := true } (.answered .rest rfl hanswer) RunState.noConfusion)
        RunState.noConfusion hrun) RunState.noConfusion hstep
    obtain ⟨hsub, -, -, -, hcomplete, -⟩ :=
      (stopped_of_moments hs.moments.1 RunState.noConfusion).1 rfl _ _ _ ha
    exact ⟨_, _, _, _, hs, rfl, rfl, ha, rfl, hsub, hcomplete⟩
  · let ready : Session :=
      { setup := callingOnce, machine := { stopAfter := some 0 }, current := some 1, state := .stepping }
    have hfirst : (new callingOnce).perform 9 .silent .step =
        some
          { session := { setup := callingOnce, current := some 1, state := .stepping }
            events := [.step ⟨0, .start, ""⟩ [] ""] } := by rfl
    have hs : History callingOnce _ ready := .requested { stopAfter := some 0 } (.operated .opened hfirst)
    have hmain : Machine.executeMain ready.program ready.setup.callLimit 9 ⟨1, .functionCall, "f()"⟩ ready.machine =
        .failed .cancelled { stopRequested := true } := by cbv
    obtain ⟨-, -, -, hinside⟩ := stopped_of_moments hs.moments.1 RunState.noConfusion
    obtain ⟨-, hframes, hend⟩ := (hinside rfl _ rfl 9).2 _ _ hmain rfl
    exact ⟨_, ready, _, _, hs, rfl, rfl, hmain, rfl, hframes, hend⟩

end Session

end Flowchart
