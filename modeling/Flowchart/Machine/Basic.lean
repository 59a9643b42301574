import Flowchart.Action
import Flowchart.Scope

/-!
# The machine

A machine holds what the blocks of a running flowchart read and change.

* `Machine` — the variables, the text printed so far, the loops whose bodies are being executed, and the
  requests to stop.  A request either stands already or is under way: it then arrives after some more blocks of
  function bodies, as a request does that somebody makes while a function is being executed.
* `trackLoop` — the loops after the condition of one of them was tested.  The innermost loop comes first.
  Entering a body puts its loop in front and ends the loops inside it; leaving a body ends its loop as well.
* `Machine.poll` — what happens to the requests before a block of a function body is executed.
-/

namespace Flowchart

/-- What the blocks of a running flowchart read and change. -/
structure Machine where
  scope : Scope := {}
  output : String := ""
  loops : List BlockId := []
  stopRequested : Bool := false
  stopAfter : Option Nat := none
  deriving DecidableEq

/-- The loops after the condition of one of them was tested: its body is entered, or left. -/
def trackLoop (id : BlockId) (entering : Bool) (loops : List BlockId) : List BlockId :=
  match entering, loops.contains id with
  | true, true => loops.dropWhile (· != id)
  | true, false => id :: loops
  | false, true => (loops.dropWhile (· != id)).tail
  | false, false => loops

namespace Machine

/-! ### What blocks change -/

/-- Binds a variable. -/
def bind (name : String) (v : Value) : Action Machine Unit :=
  .update fun m => { m with scope := m.scope.set name v }

/-- Binds a variable, if one is named. -/
def bind? (name : Option String) (v : Value) : Action Machine Unit :=
  match name with
  | some name => bind name v
  | none => pure ()

/-- Prints a value on a line of its own. -/
def print (v : Value) : Action Machine Unit :=
  .update fun m => { m with output := (m.output ++ v.display).push '\n' }

/-- Tells whether the body of a loop is being executed. -/
def inLoop (id : BlockId) : Action Machine Bool := .observe fun m => m.loops.contains id

/-- Notes that the condition of a loop was tested, with its outcome. -/
def noteLoop (id : BlockId) (outcome : Bool) : Action Machine Unit :=
  .update fun m => { m with loops := trackLoop id outcome m.loops }

/-! ### Requests to stop -/

/-- The requests at a block of a function body: one that is due stands from now on, one that is under way has
one block less to go. -/
def poll (m : Machine) : Machine :=
  match m.stopAfter with
  | none => m
  | some 0 => { m with stopRequested := true, stopAfter := none }
  | some (n + 1) => { m with stopAfter := some n }

/-- The machine without any request to stop. -/
def clearStop (m : Machine) : Machine := { m with stopRequested := false, stopAfter := none }

/-! ### Frames -/

/-- The machine at the start of a function: a frame more, and no loop of the function entered yet. -/
def enter (frame : Frame) (m : Machine) : Machine := { m with scope := m.scope.push frame, loops := [] }

/-- The machine back in the caller, whose loops these were. -/
def leave (loops : List BlockId) (m : Machine) : Machine := { m with scope := m.scope.pop, loops }

@[simp] theorem leave_enter (frame : Frame) (m : Machine) : (m.enter frame).leave m.loops = m := rfl

end Machine

/-- Tracking a loop repeats none. -/
theorem nodup_trackLoop (id : BlockId) (entering : Bool) {loops : List BlockId} (h : loops.Nodup) :
    (trackLoop id entering loops).Nodup := by
  have hdrop : (loops.dropWhile (· != id)).Nodup := h.sublist (List.dropWhile_sublist _)
  unfold trackLoop
  split
  · exact hdrop
  · next hc =>
    refine List.nodup_cons.mpr ⟨?_, h⟩
    simpa using hc
  · exact hdrop.sublist (List.tail_sublist _)
  · exact h

end Flowchart
