import Flowchart.Proofs.Scope.Snapshots
import Flowchart.Proofs.Session.Stopping

/-!
# One answer for each variable

An input block asks for its variables one by one, and answers are given in operations of their own.  In between the
host may ask for steps and for unbroken runs as often as it likes; nothing comes of it, except that the run will go on
without a break.  Each answer goes to the first variable that has none, and the block is left once all of them have
theirs.

* `Operation`, `Session.performAll` — commands one after the other, with the events of all of them.
* `Operation.Attends`, `answersOf`, `asksRun` — what a host does while values are wanted, and what matters of it.
* `Session.awaiting`, `Session.partlyAnswered`, `Session.behindInput` — the session at an input block: before the first
  answer, between two answers, and behind the block.
* `Session.performAll_partlyAnswered` — the run lemma, by induction on the operations; `provideInput_more` is the step.
* `Session.provideInput_last`, `Session.runLoop_reported` — the last answer, and what follows it without a break.
* `Scope.get?_answered_last` — each answer is the value of its variable in the report of the block.
* **`Session.input_answered`** — an execution of an input block, from its first question to the block behind it.
-/

namespace Flowchart

/-! ### Operations one after the other -/

/-- A command with its allowance of blocks, and with what the host asks for when it is told of blocks meanwhile. -/
structure Operation where
  allowance : Nat
  listener : Listener
  command : Command

/-- The text of an answer. -/
def Command.text? : Command → Option String
  | provideInput text => some text
  | _ => none

/-- What a host does that sees to an input block: it asks for a step or for an unbroken run, or gives an answer. -/
def Operation.Attends (o : Operation) : Prop :=
  o.command = .step ∨ o.command = .run ∨ ∃ text, o.command = .provideInput text

/-- The answers that are given, in order. -/
def answersOf (ops : List Operation) : List String := ops.filterMap (·.command.text?)

/-- An unbroken run is asked for. -/
def asksRun (ops : List Operation) : Bool := ops.any (·.command == .run)

/-- Commands one after the other: the session after the last one, and the events of all of them. -/
def Session.performAll : List Operation → Session → Option (Session × List Event)
  | [], s => some (s, [])
  | o :: ops, s =>
    (s.perform o.allowance o.listener o.command).bind fun r =>
      (performAll ops r.session).map fun x => (x.1, r.events ++ x.2)

/-- A variable has the answer that was given for it last. -/
theorem Scope.get?_answered_last {names texts : List String} {i : Nat} {name text : String} (s : Scope)
    (hname : names[i]? = some name) (htext : texts[i]? = some text) (hlast : name ∉ names.drop (i + 1)) :
    (s.answered names texts).get? name = some (Literal.answer text.toList) := by
  induction i generalizing names texts s with
  | zero =>
    cases names with
    | nil => cases hname
    | cons n names =>
      cases texts with
      | nil => cases htext
      | cons t texts =>
        cases hname
        cases htext
        refine (get?_answered _ fun hmem => hlast (List.mem_of_mem_take hmem)).trans ?_
        rw [Scope.get?_set, if_pos rfl]
  | succ i ih =>
    cases names with
    | nil => cases hname
    | cons n names =>
      cases texts with
      | nil => cases htext
      | cons t texts => exact ih (s.set n (Literal.answer t.toList)) hname htext hlast

namespace Session

variable {s : Session} {b : Block} {names : List String} {first name : String} {rest : List String}

/-! ### The session at an input block -/

/-- The session in which an input block has asked for its first variable. -/
def awaiting (b : Block) (names : List String) (s : Session) : Session := (s.await b.id names).1

/-- The session in which the first variables that waited have got their answers, and an unbroken run may have been asked
for meanwhile. -/
def partlyAnswered (texts : List String) (asked : Bool) (s : Session) : Session :=
  { s with
    machine := { s.machine with scope := s.machine.scope.answered s.pending texts }
    pending := s.pending.drop texts.length
    resume := s.resume || asked }

/-- The session behind an input block: its variables have got their answers, and control has moved on. -/
def behindInput (b : Block) (names texts : List String) (s : Session) : Session :=
  { s with
    machine := { s.machine with scope := s.machine.scope.answered names texts }
    current := s.program.main.successor? b.id
    state := .stepping
    pending := []
    inputBlock := none
    resume := false }

/-- An input block asks for its first variable. -/
theorem executeStep_input (hb : s.nextBlock? = some b) (hlabel : b.instruction = .ok (.input (first :: rest)))
    (hstop : s.machine.stopRequested = false) (allowance : Nat) (q : Requests) :
    s.executeStep allowance q = some (s.awaiting b (first :: rest), [.inputRequired first]) := by
  have hmain : Machine.executeMain s.program s.setup.callLimit allowance b s.machine =
      .done (.awaitInput (first :: rest)) s.machine := by
    unfold Machine.executeMain Machine.execute
    rw [hlabel]
    rfl
  unfold executeStep
  rw [hstop, if_neg Bool.false_ne_true, hb]
  dsimp only
  rw [hmain]
  rfl

/-- An unbroken stretch ends where blocks are executed no longer. -/
theorem runLoop_of_ne_running (hs : s.state ≠ .running) (allowance : Nat) (listener : Listener) (fuel told : Nat)
    (events : List Event) : runLoop allowance listener (fuel + 1) told events s = some (s, events.reverse) := by
  rw [runLoop, if_pos hs]

/-- **One more answer**: it goes to the variable that waits first, and the next one is asked for. -/
theorem provideInput_more {next : String} (hs : s.state = .paused) (hp : s.pending = name :: next :: rest)
    (allowance : Nat) (listener : Listener) (text : String) :
    s.provideInput allowance listener text =
      some { session := { s.answer name text with pending := next :: rest }, events := [.inputRequired next] } := by
  unfold provideInput
  rw [hs, hp]

/-- **While a variable is left without an answer**, steps that are asked for are ignored, and runs are only noted.  The
answers go to the variables in order, and each one but the last leads to the next question. -/
theorem performAll_partlyAnswered {ops : List Operation} (hops : ∀ o ∈ ops, o.Attends) (hs : s.state = .paused)
    (hp : s.pending = first :: rest) (hlt : (answersOf ops).length ≤ rest.length) :
    s.performAll ops = some (s.partlyAnswered (answersOf ops) (asksRun ops),
      (rest.take (answersOf ops).length).map .inputRequired) := by
  induction ops generalizing s first rest with
  | nil =>
    have hsame : s.partlyAnswered [] false = s := by simp [partlyAnswered, Scope.answered]
    rw [performAll]
    show _ = some (s.partlyAnswered [] false, _)
    rw [hsame]
    rfl
  | cons o ops ih =>
    obtain ⟨ho, hrest⟩ := List.forall_mem_cons.mp hops
    rcases ho with ho | ho | ⟨text, ho⟩
    · have hanswers : answersOf (o :: ops) = answersOf ops := by simp [answersOf, ho, Command.text?]
      have hruns : asksRun (o :: ops) = asksRun ops := by simp [asksRun, ho]
      have hignored : s.perform o.allowance o.listener o.command = some { session := s } := by
        rw [ho, perform, step, hs]
      rw [hanswers] at hlt ⊢
      rw [performAll, hignored, Option.bind_some, ih hrest hs hp hlt, hruns]
      rfl
    · have hanswers : answersOf (o :: ops) = answersOf ops := by simp [answersOf, ho, Command.text?]
      have hruns : asksRun (o :: ops) = true := by simp [asksRun, ho]
      have hnoted : s.perform o.allowance o.listener o.command = some { session := { s with resume := true } } := by
        rw [ho, perform, run, hs]
      have hfold : partlyAnswered (answersOf ops) (asksRun ops) { s with resume := true } =
          s.partlyAnswered (answersOf ops) true := by simp [partlyAnswered]
      rw [hanswers] at hlt ⊢
      rw [performAll, hnoted, Option.bind_some, ih (s := { s with resume := true }) hrest hs hp hlt, hruns, hfold]
      rfl
    · have hanswers : answersOf (o :: ops) = text :: answersOf ops := by simp [answersOf, ho, Command.text?]
      have hruns : asksRun (o :: ops) = asksRun ops := by simp [asksRun, ho]
      rw [hanswers] at hlt ⊢
      cases rest with
      | nil => exact absurd hlt (by simp)
      | cons next rest =>
        have hanswer := provideInput_more hs hp o.allowance o.listener text
        have hfold : partlyAnswered (answersOf ops) (asksRun ops) { s.answer first text with pending := next :: rest } =
            s.partlyAnswered (text :: answersOf ops) (asksRun ops) := by
          simp [partlyAnswered, answer, hp, Scope.answered]
        rw [performAll, ho, perform, hanswer, Option.bind_some,
          ih (s := { s.answer first text with pending := next :: rest }) hrest hs rfl (Nat.le_of_succ_le_succ hlt),
          hruns, hfold]
        rfl

/-! ### The last answer -/

/-- What was reported before a stretch stays in front of what is reported during it. -/
theorem runLoop_reported (allowance : Nat) (listener : Listener) (fuel told : Nat) (events : List Event) (s : Session) :
    runLoop allowance listener fuel told events s =
      (runLoop allowance listener fuel told [] s).map fun x => (x.1, events.reverse ++ x.2) := by
  induction fuel generalizing told events s with
  | zero => rfl
  | succ fuel ih =>
    rw [runLoop, runLoop]
    split
    · simp
    · split
      · simp
      · cases s.executeStep allowance (listener told) with
        | none => rfl
        | some x =>
          dsimp only
          rw [ih _ (x.2.reverseAux events), ih _ (x.2.reverseAux []), Option.map_map]
          congr 1
          funext y
          simp [List.reverseAux_eq]

/-- After the last answer the block is left, and the run goes on as it went before. -/
theorem provideInput_single (hs : s.state = .paused) (hp : s.pending = [name])
    (hfound : s.inputBlock.bind s.program.main.block? = some b) (allowance : Nat) (listener : Listener)
    (text : String) :
    s.provideInput allowance listener text =
      let x := arrive (listener 0) b (s.behindInput b [name] [text])
      if x.1.state ≠ .idle ∧ s.resume then
        replied (runLoop allowance listener allowance (x.2.countP Event.isStep) x.2.reverse
          { x.1 with state := .running })
      else some { session := x.1, events := x.2 } := by
  have hleft : ({ s.answer name text with pending := [] }).leaveInput (listener 0) =
      arrive (listener 0) b (s.behindInput b [name] [text]) := by
    unfold leaveInput
    have hblock : ({ s.answer name text with pending := [] }).inputBlock.bind
        ({ s.answer name text with pending := [] }).program.main.block? = some b := hfound
    dsimp only
    rw [hblock]
    rfl
  unfold provideInput
  rw [hs, hp]
  dsimp only
  rw [hleft]

/-- **The last answer**: the block is reported, with all answers to be seen.  Then the run ends, waits for the next
operation, or goes on without a break. -/
theorem provideInput_last {texts : List String} {last : String} (hfound : s.program.main.block? b.id = some b)
    (hlast : names.drop texts.length = [last]) (asked : Bool) (allowance : Nat) (listener : Listener) (text : String) :
    let behind := s.behindInput b names (texts ++ [text])
    let heard := behind.accept (listener 0)
    let report := Event.step b behind.snapshot s.output
    let reply := ((s.awaiting b names).partlyAnswered texts asked).provideInput allowance listener text
    (heard.nextBlock? = none → reply = some { session := heard.halt.1, events := [report, .complete] }) ∧
    (heard.nextBlock? ≠ none → (s.resume || s.state == .running || asked) = false →
      reply = some { session := heard, events := [report] }) ∧
    (heard.nextBlock? ≠ none → (s.resume || s.state == .running || asked) = true →
      reply = (runLoop allowance listener allowance 1 [] { heard with state := .running }).map fun x =>
        { session := x.1, events := report :: x.2 }) := by
  intro behind heard report reply
  have hbehind : ((s.awaiting b names).partlyAnswered texts asked).behindInput b [last] [text] = behind := by
    have hscope : (s.machine.scope.answered names texts).answered [last] [text] =
        s.machine.scope.answered names (texts ++ [text]) := (Scope.answered_concat text _ hlast).symm
    simp only [behind, behindInput, ← hscope]
    rfl
  have hreply : reply = _ := provideInput_single (s := (s.awaiting b names).partlyAnswered texts asked) rfl hlast hfound
    allowance listener text
  rw [hbehind] at hreply
  have hresume : ((s.awaiting b names).partlyAnswered texts asked).resume =
      (s.resume || s.state == .running || asked) := rfl
  rw [hresume] at hreply
  have hgoing : heard.nextBlock? ≠ none → arrive (listener 0) b behind = (heard, [report]) := by
    intro hsome
    obtain ⟨next, hnext⟩ := Option.ne_none_iff_exists'.mp hsome
    unfold arrive
    dsimp only
    rw [show (behind.accept (listener 0)).nextBlock? = some next from hnext]
    rfl
  have hstepping : heard.state ≠ .idle := RunState.noConfusion
  refine ⟨fun hnone => ?_, fun hsome hasked => ?_, fun hsome hasked => ?_⟩
  · have hover : arrive (listener 0) b behind = (heard.halt.1, [report, .complete]) := by
      unfold arrive
      dsimp only
      rw [show (behind.accept (listener 0)).nextBlock? = none from hnone]
      rfl
    rw [hreply, hover]
    exact if_neg fun h => h.1 rfl
  · rw [hreply, hgoing hsome, hasked]
    exact if_neg fun h => Bool.false_ne_true h.2
  · rw [hreply, hgoing hsome, hasked]
    dsimp only
    rw [if_pos ⟨hstepping, rfl⟩, runLoop_reported, replied, Option.map_map]
    rfl

/-- **An execution of an input block.**  The block asks for its first variable, and the operation in which this
happens is over.  As long as a variable is left without an answer, the host may ask for steps and for unbroken runs:
nothing is executed and nothing is reported for it.  Every answer goes to the variable that was asked for last,
changes nothing else, and leads to the question for the next one.  With the last answer the block is reported, once;
all of its variables are to be seen in the report, each with the answer that it got last.  Control has moved on to the
block behind it; there the run ends, or waits for the host, or goes on, if blocks were executed without a break or
this was asked for meanwhile. -/
theorem input_answered (hb : s.nextBlock? = some b) (hlabel : b.instruction = .ok (.input names))
    (hstop : s.machine.stopRequested = false) :
    ∃ first rest, names = first :: rest ∧
      (∀ allowance q, s.executeStep allowance q = some (s.awaiting b names, [.inputRequired first])) ∧
      (∀ allowance listener fuel told events, runLoop allowance listener (fuel + 1) told events (s.awaiting b names) =
        some (s.awaiting b names, events.reverse)) ∧
      ∀ ops : List Operation, (∀ o ∈ ops, o.Attends) → ∀ name later,
        names.drop (answersOf ops).length = name :: later →
        let waiting := (s.awaiting b names).partlyAnswered (answersOf ops) (asksRun ops)
        (s.awaiting b names).performAll ops =
          some (waiting, (rest.take (answersOf ops).length).map .inputRequired) ∧
        ∀ allowance listener text,
          (∀ next more, later = next :: more → waiting.provideInput allowance listener text =
            some { session := { waiting.answer name text with pending := later }, events := [.inputRequired next] }) ∧
          (later = [] →
            let texts := answersOf ops ++ [text]
            let behind := s.behindInput b names texts
            let heard := behind.accept (listener 0)
            let report := Event.step b behind.snapshot s.output
            let reply := waiting.provideInput allowance listener text
            rest.take (answersOf ops).length = rest ∧
            (∀ i name text, names[i]? = some name → texts[i]? = some text → name ∉ names.drop (i + 1) →
              (name, Literal.answer text.toList) ∈ behind.snapshot) ∧
            (heard.nextBlock? = none →
              reply = some { session := heard.halt.1, events := [report, .complete] }) ∧
            (heard.nextBlock? ≠ none → (s.resume || s.state == .running || asksRun ops) = false →
              reply = some { session := heard, events := [report] }) ∧
            (heard.nextBlock? ≠ none → (s.resume || s.state == .running || asksRun ops) = true →
              reply = (runLoop allowance listener allowance 1 [] { heard with state := .running }).map fun x =>
                { session := x.1, events := report :: x.2 })) := by
  obtain ⟨first, rest, rfl⟩ := List.exists_cons_of_ne_nil (Block.input_ne_nil hlabel)
  refine ⟨first, rest, rfl, executeStep_input hb hlabel hstop, runLoop_of_ne_running RunState.noConfusion, ?_⟩
  intro ops hops name later hdrop waiting
  have hlength : (answersOf ops).length + later.length = rest.length := by
    have hcount := congrArg List.length hdrop
    rw [List.length_drop, List.length_cons, List.length_cons] at hcount
    omega
  refine ⟨performAll_partlyAnswered hops rfl rfl (by omega), fun allowance listener text => ⟨?_, ?_⟩⟩
  · rintro next more rfl
    exact provideInput_more rfl hdrop allowance listener text
  · rintro rfl
    intro texts behind heard report reply
    have hlast := provideInput_last (nextBlock?_spec hb).2 hdrop (asksRun ops) allowance listener text
    refine ⟨List.take_of_length_le (by simpa using hlength.ge), ?_, hlast⟩
    intro i name text hname htext hnot
    exact Scope.mem_snapshot_of_get? (Scope.get?_answered_last _ hname htext hnot)

/-- Two variables, with a step and a run asked for in between.  The end block behind them ends the run. -/
theorem input_answered_askingTwice :
    let s : Session := { setup := askingTwice, current := some 1, state := .stepping }
    let b : Block := ⟨1, .input, "x, y"⟩
    let ops : List Operation :=
      [⟨9, .silent, .step⟩, ⟨9, .silent, .provideInput "five"⟩, ⟨9, .silent, .run⟩, ⟨9, .silent, .step⟩]
    s.nextBlock? = some b ∧ b.instruction = .ok (.input ["x", "y"]) ∧ s.machine.stopRequested = false ∧
      (∀ o ∈ ops, o.Attends) ∧
      s.executeStep 9 {} = some (s.awaiting b ["x", "y"], [.inputRequired "x"]) ∧
      ∃ waiting, (s.awaiting b ["x", "y"]).performAll ops = some (waiting, [.inputRequired "y"]) ∧
        ∃ t, waiting.provideInput 9 .silent "seven" = some {
          session := t
          events := [.step b [("x", .text "five"), ("y", .text "seven")] "", .complete] } ∧
        t.current = some 2 := by
  intro s b ops
  have hb : s.nextBlock? = some b := by decide
  have hlabel : b.instruction = .ok (.input ["x", "y"]) := by decide +kernel
  have hops : ∀ o ∈ ops, o.Attends := by
    simp [ops, Operation.Attends]
  obtain ⟨first, rest, hnames, hasks, -, htakes⟩ := input_answered hb hlabel rfl
  cases hnames
  obtain ⟨hrow, hnext⟩ := htakes ops hops "y" [] rfl
  obtain ⟨-, hlast⟩ := hnext 9 .silent "seven"
  obtain ⟨-, -, hover, -⟩ := hlast rfl
  have hsnapshot : (s.behindInput b ["x", "y"] ["five", "seven"]).snapshot =
      [("x", .text "five"), ("y", .text "seven")] := by decide +kernel
  rw [← hsnapshot]
  exact ⟨hb, hlabel, rfl, hops, hasks 9 {}, _, hrow, _, hover (by decide), rfl⟩

end Session

end Flowchart
