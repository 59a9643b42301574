import Flowchart.Session.Basic

/-!
# Operating a session

The operations that a host has.  Each gives the session after it and the events that were reported meanwhile,
in order.  An operation may also be refused (`Misuse`), and it has no answer at all (`none`) if it needs more
than its allowance of blocks.

* `Session.halt`, `Session.fail` — the end of a run.  Failing reports the error before the end.
* `Session.executeStep` — one block of the main flowchart, or the end of the run.
* `Session.runLoop` — blocks one after the other, until the run is over, a value is wanted or a pause was
  asked for.
* `Session.start`, `Session.step`, `Session.run`, `Session.provideInput`, `Session.stop` — the operations.
* `Command`, `Session.perform` — the operations as data.
* `Session.tryStep`, `Session.stopShared` — operations on a session that somebody else may be holding.
-/

namespace Flowchart

/-- Why an operation is refused. -/
inductive Misuse where
  | notAwaitingInput
  | noStart
  deriving Repr, DecidableEq

/-- The message for a refusal. -/
def Misuse.message : Misuse → String
  | notAwaitingInput => "The interpreter is not waiting for input"
  | noStart => "The main graph has no Start block"

/-- How the message of a failed run begins. -/
def failureMessage (reason : String) : String := "Execution error: " ++ reason

/-- What an operation leaves: its result, the session, and the events that were reported. -/
structure Reply where
  result : Except Misuse Unit := .ok ()
  session : Session
  events : List Event := []

namespace Session

/-! ### The end of a run -/

/-- Ends the run and reports that it is over. -/
def halt (s : Session) : Session × List Event :=
  ({ s.clearRequests with state := .idle, pending := [], inputBlock := none }, [.complete])

/-- Ends the run for a fault. -/
def fail (f : Fault) (s : Session) : Session × List Event :=
  let (s, events) := s.halt
  (s, .error (failureMessage f.message) :: events)

/-! ### One block -/

/-- Reports that a block was executed, hears what the host asks for, and ends the run if nothing comes next. -/
def arrive (r : Requests) (b : Block) (s : Session) : Session × List Event :=
  let event := Event.step b s.snapshot s.output
  let s := s.accept r
  match s.nextBlock? with
  | some _ => (s, [event])
  | none =>
    let (s, events) := s.halt
    (s, event :: events)

/-- Waits for the values of variables, and remembers whether blocks were being executed without a break. -/
def await (id : BlockId) (names : List String) (s : Session) : Session × List Event :=
  ({ s with
      pending := names
      inputBlock := some id
      resume := s.resume || s.state == .running
      state := .paused },
    names.head?.toList.map .inputRequired)

/-- Executes the next block of the main flowchart, unless the run ends here. -/
def executeStep (allowance : Nat) (r : Requests) (s : Session) : Option (Session × List Event) :=
  if s.machine.stopRequested then some s.halt
  else
    match s.nextBlock? with
    | none => some s.halt
    | some b =>
      match Machine.executeMain s.program s.setup.callLimit allowance b s.machine with
      | .done (.next target) m => some (arrive r b { s with machine := m, current := target })
      | .done (.awaitInput names) m => some (await b.id names { s with machine := m })
      | .failed .cancelled m => some (halt { s with machine := m })
      | .failed fault m => some (fail fault { s with machine := m })
      | .unfinished => none

/-- Executes blocks without a break.  `told` counts the blocks of the operation of which the host was told
already, and `events`, the latest first, are what was reported so far. -/
def runLoop (allowance : Nat) (listener : Listener) :
    Nat → Nat → List Event → Session → Option (Session × List Event)
  | 0, _, _, _ => none
  | fuel + 1, told, events, s =>
    if s.state ≠ .running then some (s, events.reverse)
    else if s.pauseRequested then some ({ s with pauseRequested := false, state := .stepping }, events.reverse)
    else
      match executeStep allowance (listener told) s with
      | none => none
      | some (s, new) => runLoop allowance listener fuel (told + new.countP Event.isStep) (new.reverseAux events) s

/-! ### Operations -/

/-- An answer without a refusal. -/
def replied (moved : Option (Session × List Event)) : Option Reply :=
  moved.map fun (s, events) => { session := s, events }

/-- Sets the session back for a new run.  Without a start block the run is over before it begins. -/
def begin (s : Session) : Reply :=
  let s := s.reset
  match s.current with
  | some _ => { session := s }
  | none =>
    { result := .error .noStart, session := s,
      events := [.error (failureMessage Misuse.noStart.message), .complete] }

/-- Begins a new run and executes blocks without a break. -/
def start (allowance : Nat) (listener : Listener) (s : Session) : Option Reply :=
  let begun := s.begin
  match begun.result with
  | .error _ => some begun
  | .ok () => replied (runLoop allowance listener allowance 0 [] { begun.session with state := .running })

/-- Executes one block; a new run begins if none is going on.  Nothing happens while a value is wanted. -/
def step (allowance : Nat) (listener : Listener) (s : Session) : Option Reply :=
  match s.state with
  | .paused => some { session := s }
  | .idle =>
    let begun := s.begin
    match begun.result with
    | .error _ => some begun
    | .ok () => replied (executeStep allowance (listener 0) { begun.session with state := .stepping })
  | .running | .stepping => replied (executeStep allowance (listener 0) { s with state := .stepping })

/-- Goes on without a break; a new run begins if none is going on.  While a value is wanted, this decides how
the run goes on afterwards. -/
def run (allowance : Nat) (listener : Listener) (s : Session) : Option Reply :=
  match s.state with
  | .idle => s.start allowance listener
  | .paused => some { session := { s with resume := true } }
  | .running | .stepping => replied (runLoop allowance listener allowance 0 [] { s with state := .running })

/-- Gives a value to the next variable that waits for one. -/
def answer (name : String) (text : String) (s : Session) : Session :=
  { s with machine := { s.machine with scope := s.machine.scope.set name (Literal.answer text.toList) } }

/-- Leaves the block whose variables have their values: control moves on, and the block is reported. -/
def leaveInput (r : Requests) (s : Session) : Session × List Event :=
  let left := { s with inputBlock := none, resume := false, state := .stepping }
  match s.inputBlock.bind s.program.main.block? with
  | some b => arrive r b { left with current := s.program.main.successor? b.id }
  | none =>
    match left.nextBlock? with
    | some _ => (left, [])
    | none => left.halt

/-- Answers with the text for the next variable.  After the last one the run goes on as it went before. -/
def provideInput (allowance : Nat) (listener : Listener) (text : String) (s : Session) : Option Reply :=
  match s.state, s.pending with
  | .paused, name :: rest =>
    let answered := { s.answer name text with pending := rest }
    match rest with
    | next :: _ => some { session := answered, events := [.inputRequired next] }
    | [] =>
      let (left, events) := answered.leaveInput (listener 0)
      if left.state ≠ .idle ∧ s.resume then
        replied
          (runLoop allowance listener allowance (events.countP Event.isStep) events.reverse
            { left with state := .running })
      else some { session := left, events }
  | _, _ => some { result := .error .notAwaitingInput, session := s }

/-- Ends the run at once.  If none is going on, requests are dropped and nothing is reported. -/
def stop (s : Session) : Session × List Event :=
  match s.state with
  | .idle => (s.clearRequests, [])
  | _ => s.halt

end Session

/-! ### Commands -/

/-- The operations on a session. -/
inductive Command where
  | start
  | step
  | run
  | provideInput (text : String)
  | stop
  | reset
  | requestStop
  | requestPause
  deriving Repr, DecidableEq

namespace Session

/-- Carries out a command. -/
def perform (allowance : Nat) (listener : Listener) (c : Command) (s : Session) : Option Reply :=
  match c with
  | .start => s.start allowance listener
  | .step => s.step allowance listener
  | .run => s.run allowance listener
  | .provideInput text => s.provideInput allowance listener text
  | .stop => replied (some s.stop)
  | .reset => some { session := s.reset }
  | .requestStop => some { session := s.requestStop }
  | .requestPause => some { session := s.requestPause }

/-! ### Shared sessions -/

/-- Executes one block unless somebody else holds the session, and tells whether it did. -/
def tryStep (allowance : Nat) (listener : Listener) (held : Bool) (s : Session) : Option (Bool × Reply) :=
  if held then some (false, { session := s })
  else (s.step allowance listener).map (true, ·)

/-- Ends the run: at once, or by a request if somebody else holds the session. -/
def stopShared (held : Bool) (s : Session) : Session × List Event :=
  if held then (s.requestStop, []) else s.requestStop.stop

end Session

end Flowchart
