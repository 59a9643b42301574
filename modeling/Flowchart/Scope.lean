import Flowchart.Bindings
import Flowchart.Text.Quoted
import Flowchart.Value

/-!
# Scopes

While a flowchart runs, variables live in a stack of frames on top of the globals: one frame for every
function that is being executed, the innermost first.  A name is looked up in the innermost frame and then
among the globals, never in the frames between.  A variable is bound in the innermost frame, or among the
globals when no function is being executed.

* `Frame`, `Scope` — the data, with `Scope.get?`, `Scope.set`, `Scope.push`, `Scope.pop` and `Scope.clear`.
* `Scope.visible` — the bindings that look-up can reach.
* `Snapshot` — the visible bindings in the order of their names, as reports show them.
-/

namespace Flowchart

/-- The variables of one function that is being executed. -/
structure Frame where
  function : String
  locals : Bindings Value := []
  deriving DecidableEq

/-- The globals and the frames of the functions being executed, innermost first. -/
structure Scope where
  globals : Bindings Value := []
  frames : List Frame := []
  deriving DecidableEq

/-- Bindings in ascending order of their names. -/
abbrev Snapshot := Bindings Value

namespace Frame

/-- The frame with one more binding. -/
def bind (name : String) (v : Value) (f : Frame) : Frame := { f with locals := f.locals.set name v }

/-- The value of a local variable. -/
def get? (name : String) (f : Frame) : Option Value := f.locals.get? name

end Frame

namespace Scope

/-- The value of a name: in the innermost frame, else among the globals. -/
def get? (name : String) (s : Scope) : Option Value :=
  match s.frames with
  | [] => s.globals.get? name
  | f :: _ => (f.get? name).or (s.globals.get? name)

/-- A name has a value. -/
def has (name : String) (s : Scope) : Bool := (s.get? name).isSome

/-- The scope with a variable bound in the innermost frame, or among the globals. -/
def set (name : String) (v : Value) (s : Scope) : Scope :=
  match s.frames with
  | [] => { s with globals := s.globals.set name v }
  | f :: rest => { s with frames := f.bind name v :: rest }

/-- The scope with one more frame. -/
def push (f : Frame) (s : Scope) : Scope := { s with frames := f :: s.frames }

/-- The scope without its innermost frame. -/
def pop (s : Scope) : Scope := { s with frames := s.frames.tail }

/-- The scope without any variable or frame. -/
def clear (_ : Scope) : Scope := {}

/-- The innermost frame. -/
def top? (s : Scope) : Option Frame := s.frames.head?

/-- The number of functions being executed. -/
def depth (s : Scope) : Nat := s.frames.length

/-- The bindings that look-up can reach: those of the innermost frame and the globals they do not hide. -/
def visible (s : Scope) : Bindings Value :=
  match s.frames with
  | [] => s.globals
  | f :: _ => s.globals.filter (fun pair => (f.get? pair.1).isNone) ++ f.locals

@[simp] theorem pop_push (f : Frame) (s : Scope) : (s.push f).pop = s := rfl

/-- A new binding is found, and hides nothing else. -/
theorem get?_set (name other : String) (v : Value) (s : Scope) :
    (s.set name v).get? other = if other = name then some v else s.get? other := by
  unfold set
  split
  · next h => simp [get?, h, Bindings.get?_set]
  · next f rest h =>
    simp only [get?, h, Frame.get?, Frame.bind, Bindings.get?_set]
    split <;> simp

end Scope

namespace Snapshot

/-- Puts a binding at its place by name. -/
def insert (pair : String × Value) : Snapshot → Snapshot
  | [] => [pair]
  | other :: rest => if pair.1 < other.1 then pair :: other :: rest else other :: insert pair rest

/-- Bindings put in ascending order of their names. -/
def ofBindings (b : Bindings Value) : Snapshot := b.foldr insert []

/-- How a report shows a value: a string in quotation marks, any other value as it is printed. -/
def describeValue : Value → String
  | .text s => Text.quote s
  | v => v.display

/-- How a report shows a snapshot: the bindings as equations, separated by commas. -/
def describe (s : Snapshot) : String :=
  ", ".intercalate (s.map fun pair => pair.1 ++ " = " ++ describeValue pair.2)

end Snapshot

/-- The visible bindings of a scope in the order of their names. -/
def Scope.snapshot (s : Scope) : Snapshot := Snapshot.ofBindings s.visible

end Flowchart
