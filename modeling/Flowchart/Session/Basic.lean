import Flowchart.Machine.Execution
import Flowchart.Trace

/-!
# Sessions

A session is a program under the control of a host, who starts a run, lets it go on block by block or without
a break, answers when a value is wanted, and may ask it to pause or to stop.

* `Setup` — what a session is opened with: the program, the variables that every run begins with, and the
  number of calls that may be nested.
* `RunState`, `Session` — where the session stands.
* `Session.reset` — the session before a run: fresh variables, no output, the start block next.
* `Requests`, `Listener` — a host is told of every executed block and may make requests while being told.
-/

namespace Flowchart

/-- What a session is opened with. -/
structure Setup where
  program : Program
  presets : List (String × Value) := []
  callLimit : Nat := 100
  deriving DecidableEq

/-- The mode of a session. -/
inductive RunState where
  /-- No run is going on. -/
  | idle
  /-- Blocks are executed one after the other. -/
  | running
  /-- One block is executed at a time. -/
  | stepping
  /-- A value is wanted. -/
  | paused
  deriving Repr, DecidableEq

/-- A program under the control of a host. -/
structure Session where
  setup : Setup
  machine : Machine := {}
  /-- The block that comes next. -/
  current : Option BlockId := none
  state : RunState := .idle
  /-- The variables that wait for values, the next one first. -/
  pending : List String := []
  /-- The block whose variables wait for values. -/
  inputBlock : Option BlockId := none
  /-- The run goes on without a break once the values are there. -/
  resume : Bool := false
  pauseRequested : Bool := false
  deriving DecidableEq

namespace Setup

/-- The variables at the beginning of every run. -/
def initialScope (setup : Setup) : Scope := setup.presets.foldl (fun s p => s.set p.1 p.2) {}

end Setup

namespace Session

/-! ### Views -/

/-- The program of a session. -/
def program (s : Session) : Program := s.setup.program

/-- The text printed so far. -/
def output (s : Session) : String := s.machine.output

/-- The visible variables. -/
def snapshot (s : Session) : Snapshot := s.machine.scope.snapshot

/-- The value of a variable. -/
def valueOf? (name : String) (s : Session) : Option Value := s.machine.scope.get? name

/-- The block that comes next. -/
def currentBlock? (s : Session) : Option Block := s.current.bind s.program.main.block?

/-- The block to execute next: none at the end of the path, and none if it is an end block. -/
def nextBlock? (s : Session) : Option Block := s.currentBlock?.filter (·.kind != .finish)

/-- A run is going on, be it that it waits for a value. -/
def isRunning (s : Session) : Bool := s.state != .idle

/-- The run waits for a value. -/
def isPaused (s : Session) : Bool := s.state == .paused

/-- The variable that waits for a value. -/
def pendingInput? (s : Session) : Option String := s.pending.head?

/-! ### Beginnings and requests -/

/-- A session in which nothing has happened. -/
def new (setup : Setup) : Session := { setup }

/-- The session before a run. -/
def reset (s : Session) : Session :=
  { setup := s.setup, machine := { scope := s.setup.initialScope }, current := s.program.main.start? }

/-- Asks for an end of the run. -/
def requestStop (s : Session) : Session := { s with machine := { s.machine with stopRequested := true } }

/-- Asks for a run without break to go on block by block. -/
def requestPause (s : Session) : Session := { s with pauseRequested := true }

/-- The session without any request. -/
def clearRequests (s : Session) : Session :=
  { s with machine := s.machine.clearStop, pauseRequested := false }

end Session

/-! ### Hosts -/

/-- What a host asks for while being told of a block: to stop, to pause, or to stop once a number of further
blocks of function bodies were reached. -/
structure Requests where
  stop : Bool := false
  pause : Bool := false
  stopAfter : Option Nat := none
  deriving DecidableEq

/-- The requests of a host at the blocks of one operation, which are counted from zero. -/
abbrev Listener := Nat → Requests

/-- A host that asks for nothing. -/
def Listener.silent : Listener := fun _ => {}

/-- The session once the requests were made. -/
def Session.accept (r : Requests) (s : Session) : Session :=
  { s with
    machine :=
      { s.machine with
        stopRequested := s.machine.stopRequested || r.stop
        stopAfter := r.stopAfter.or s.machine.stopAfter }
    pauseRequested := s.pauseRequested || r.pause }

@[simp] theorem Session.accept_nothing (s : Session) : s.accept {} = s := by
  simp [accept]

/-- What a session was before does not matter for a run. -/
theorem Session.reset_eq {s t : Session} (h : s.setup = t.setup) : s.reset = t.reset := by
  simp [reset, program, h]

end Flowchart
