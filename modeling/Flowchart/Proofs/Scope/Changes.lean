import Flowchart.Proofs.Scope.Snapshots
import Mathlib.Data.Set.Card

/-!
# Scopes under changes

A scope changes in four ways: a variable is bound, a frame is pushed or popped, or everything is cleared.  What is found
in a scope depends on the innermost frame and on the globals only, and a function that is called works on a frame of its
own; so its caller finds everything as it was, provided that every frame pushed meanwhile is popped again, and no other.

* `Scope.Change`, `Scope.apply`, `Scope.applyAll` — changes, one and many.
* `Frame.ofBindings` — how frames are made.  `Frame.ofBindings_locals` says that every frame without repeated names is
  made so, those included that were popped from a scope.
* `Scope.Unrepeated.apply`, `Scope.Unrepeated.applyAll` — the invariant on which snapshots rest, along any changes.
* `Scope.Change.Balanced` — rows of changes that pop what they push, and nothing else.
* `Scope.RestsOn` — frames on top of those of another scope.  `RestsOn.apply` is the step and `RestsOn.applyAll` the run;
  `Scope.pop_applyAll_push` is what a balanced row comes to.
* **`Scope.snapshot_agrees_frames_nest`** — snapshots of all scopes that changes lead to, and what balanced changes
  between a push and a pop leave behind.
-/

namespace Flowchart

/-! ### Frames -/

namespace Frame

/-- The frame into which bindings are put one by one. -/
def ofBindings (function : String) (bindings : List (String × Value)) : Frame :=
  bindings.foldl (fun f pair => f.bind pair.1 pair.2) { function }

variable {f : Frame}

theorem nodup_foldl (h : (Bindings.names f.locals).Nodup) (bindings : List (String × Value)) :
    (Bindings.names (bindings.foldl (fun f pair => f.bind pair.1 pair.2) f).locals).Nodup := by
  induction bindings generalizing f with
  | nil => exact h
  | cons pair bindings ih => exact ih (Bindings.nodup_names_set pair.1 pair.2 h)

/-- No name is bound twice in a frame. -/
theorem nodup_ofBindings (function : String) (bindings : List (String × Value)) :
    (Bindings.names (ofBindings function bindings).locals).Nodup :=
  nodup_foldl (f := { function }) .nil bindings

/-- Bindings of new names are put at the end one after the other. -/
theorem foldl_fresh {bindings : List (String × Value)} (h : (Bindings.names (f.locals ++ bindings)).Nodup) :
    bindings.foldl (fun f pair => f.bind pair.1 pair.2) f = { f with locals := f.locals ++ bindings } := by
  induction bindings generalizing f with
  | nil => rw [List.foldl_nil, List.append_nil]
  | cons pair bindings ih =>
    have hnew : pair.1 ∉ Bindings.names f.locals := fun hmem => by
      rw [Bindings.names, List.map_append] at h
      exact (List.nodup_append.mp h).2.2 _ hmem _ (List.mem_map_of_mem List.mem_cons_self) rfl
    have hbind : (f.bind pair.1 pair.2).locals = f.locals ++ [pair] := Bindings.set_of_not_mem hnew pair.2
    rw [List.foldl_cons, ih (by rw [hbind, List.append_assoc]; exact h), hbind, List.append_assoc]
    rfl

/-- **Every frame without repeated names is made from its own variables.** -/
theorem ofBindings_locals (h : (Bindings.names f.locals).Nodup) : ofBindings f.function f.locals = f :=
  foldl_fresh (f := { function := f.function }) h

end Frame

namespace Scope

/-! ### Changes -/

/-- What is done to a scope. -/
inductive Change where
  | set (name : String) (v : Value)
  /-- A frame is made and pushed. -/
  | push (function : String) (bindings : List (String × Value))
  | pop
  | clear
  deriving DecidableEq

/-- The scope after a change. -/
def apply (c : Change) (s : Scope) : Scope :=
  match c with
  | .set name v => s.set name v
  | .push function bindings => s.push (.ofBindings function bindings)
  | .pop => s.pop
  | .clear => s.clear

/-- The scope after a row of changes. -/
def applyAll (changes : List Change) (s : Scope) : Scope := changes.foldl (fun s c => s.apply c) s

namespace Change

/-- By how many frames a change makes the stack higher. -/
def rise : Change → Int
  | set _ _ => 0
  | push _ _ => 1
  | pop => -1
  | clear => 0

/-- By how many frames the stack is higher after a row of changes. -/
def level : List Change → Int
  | [] => 0
  | c :: changes => c.rise + level changes

/-- Variables are bound, frames are pushed and popped; at no time more was popped than was pushed, and in the end just
as much. -/
structure Balanced (changes : List Change) : Prop where
  level_eq : level changes = 0
  level_nonneg : ∀ before, before <+: changes → 0 ≤ level before
  clear_not_mem : clear ∉ changes

instance (changes : List Change) : Decidable (Balanced changes) :=
  decidable_of_iff (level changes = 0 ∧ (∀ before ∈ changes.inits, 0 ≤ level before) ∧ clear ∉ changes)
    ⟨fun h => ⟨h.1, fun before hbefore => h.2.1 before ((List.mem_inits before changes).mpr hbefore), h.2.2⟩,
      fun h => ⟨h.level_eq, fun before hbefore => h.level_nonneg before ((List.mem_inits before changes).mp hbefore),
        h.clear_not_mem⟩⟩

end Change

variable {base s : Scope} {c : Change} {changes : List Change} {height : Int}

/-! ### What every change keeps -/

theorem unrepeated_empty : Unrepeated {} := ⟨.nil, fun _ hf => absurd hf List.not_mem_nil⟩

/-- **No change binds a name twice** in one frame. -/
theorem Unrepeated.apply (h : s.Unrepeated) (c : Change) : (s.apply c).Unrepeated := by
  cases c with
  | set name v =>
    show (s.set name v).Unrepeated
    unfold set
    split
    · exact ⟨Bindings.nodup_names_set name v h.globals, h.locals⟩
    · next top rest hframes =>
      have hlocals : ∀ f ∈ top :: rest, (Bindings.names f.locals).Nodup := hframes ▸ h.locals
      refine ⟨h.globals, fun f hf => ?_⟩
      rcases List.mem_cons.mp hf with rfl | hf
      · exact Bindings.nodup_names_set name v (hlocals top List.mem_cons_self)
      · exact hlocals f (List.mem_cons_of_mem top hf)
  | push function bindings =>
    refine ⟨h.globals, fun f hf => ?_⟩
    rcases List.mem_cons.mp hf with rfl | hf
    · exact Frame.nodup_ofBindings function bindings
    · exact h.locals f hf
  | pop => exact ⟨h.globals, fun f hf => h.locals f (List.mem_of_mem_tail hf)⟩
  | clear => exact unrepeated_empty

theorem Unrepeated.applyAll (h : s.Unrepeated) (changes : List Change) : (s.applyAll changes).Unrepeated := by
  induction changes generalizing s with
  | nil => exact h
  | cons c changes ih => exact ih (h.apply c)

/-! ### Frames on top of a scope -/

/-- A scope has the globals of another one, and a number of frames on top of the frames of that one. -/
structure RestsOn (base : Scope) (height : Int) (s : Scope) : Prop where
  globals : s.globals = base.globals
  frames : ∃ above : List Frame, above.length = height ∧ s.frames = above ++ base.frames

/-- **One change**, while there is a frame on top. -/
theorem RestsOn.apply (h : RestsOn base height s) (hpos : 0 < height) (hc : c ≠ .clear) :
    RestsOn base (height + c.rise) (s.apply c) := by
  obtain ⟨hglobals, above, hlength, hframes⟩ := h
  cases above with
  | nil =>
    rw [← hlength] at hpos
    exact absurd hpos (lt_irrefl 0)
  | cons top above =>
    rw [List.cons_append] at hframes
    cases c with
    | set name v =>
      have hset : s.apply (.set name v) = { s with frames := top.bind name v :: (above ++ base.frames) } := by
        show s.set name v = _
        unfold set
        rw [hframes]
      rw [hset]
      exact ⟨hglobals, top.bind name v :: above, by simpa [Change.rise] using hlength, rfl⟩
    | push function bindings =>
      refine ⟨hglobals, .ofBindings function bindings :: top :: above, ?_, ?_⟩
      · rw [← hlength, List.length_cons]
        rfl
      · show _ :: s.frames = _
        rw [hframes]
        rfl
    | pop =>
      refine ⟨hglobals, above, ?_, ?_⟩
      · rw [← hlength, List.length_cons]
        show (above.length : Int) = ((above.length + 1 : Nat) : Int) + -1
        omega
      · show s.frames.tail = _
        rw [hframes]
        rfl
    | clear => exact absurd rfl hc

/-- **A row of changes** that never takes away the last frame on top. -/
theorem RestsOn.applyAll (h : RestsOn base height s)
    (habove : ∀ before, before <+: changes → 0 < height + Change.level before) (hclear : Change.clear ∉ changes) :
    RestsOn base (height + Change.level changes) (s.applyAll changes) := by
  induction changes generalizing s height with
  | nil => rwa [Change.level, Int.add_zero]
  | cons c changes ih =>
    obtain ⟨hc, hclear⟩ := not_or.mp fun hor => hclear (List.mem_cons.mpr hor)
    have hpos : 0 < height := by simpa [Change.level] using habove [] List.nil_prefix
    rw [Change.level, ← Int.add_assoc]
    refine ih (h.apply hpos (Ne.symm hc)) (fun before hbefore => ?_) hclear
    rw [Int.add_assoc]
    exact habove (c :: before) (List.cons_prefix_cons.mpr ⟨rfl, hbefore⟩)

/-- **A frame that is pushed and popped leaves nothing behind**, whatever balanced changes come in between. -/
theorem pop_applyAll_push (s : Scope) (f : Frame) (hbalanced : Change.Balanced changes) :
    ((s.push f).applyAll changes).pop = s := by
  have hpushed : RestsOn s 1 (s.push f) := ⟨rfl, [f], rfl, rfl⟩
  have habove : ∀ before, before <+: changes → 0 < 1 + Change.level before := fun before hbefore => by
    have hnonneg := hbalanced.level_nonneg before hbefore
    omega
  obtain ⟨hglobals, above, hlength, hframes⟩ := hpushed.applyAll habove hbalanced.clear_not_mem
  rw [hbalanced.level_eq] at hlength
  obtain ⟨top, rfl⟩ : ∃ top, above = [top] := List.length_eq_one_iff.mp (by omega)
  generalize (s.push f).applyAll changes = t at hglobals hframes
  obtain ⟨globals, frames⟩ := t
  obtain rfl : globals = s.globals := hglobals
  obtain rfl : frames = top :: s.frames := hframes
  rfl

/-! ### Snapshots -/

/-- A snapshot has as many bindings as there are names with a value. -/
theorem Unrepeated.encard_has (h : s.Unrepeated) : {name | s.has name = true}.encard = s.snapshot.length := by
  have hnames : {name | s.has name = true} = ↑(Bindings.names s.snapshot).toFinset := by
    ext name
    rw [Finset.mem_coe, List.mem_toFinset, h.mem_names_snapshot]
    rfl
  have hnodup : (Bindings.names s.snapshot).Nodup := h.ascending_snapshot.imp ne_of_lt
  rw [hnames, Set.encard_coe_eq_coe_finsetCard, List.toFinset_card_of_nodup hnodup, Bindings.names, List.length_map]

/-- **Snapshots agree with their scopes, and frames nest.**  After any changes of an empty scope, the snapshot shows for
every name what look-up finds; it lists the names in strictly ascending order, and it is as long as there are names with
a value.  And whatever a scope is, if a frame is pushed, balanced changes are made and the frame on top is popped, the
scope is what it was, with its globals and all its frames. -/
theorem snapshot_agrees_frames_nest :
    (∀ changes : List Change,
      let s := Scope.applyAll changes {}
      (∀ name, Bindings.get? name s.snapshot = s.get? name) ∧
      (Bindings.names s.snapshot).Pairwise (· < ·) ∧
      {name | s.has name = true}.encard = s.snapshot.length) ∧
    ∀ (s : Scope) (f : Frame) (changes : List Change), Change.Balanced changes →
      ((s.push f).applyAll changes).pop = s := by
  refine ⟨fun changes => ?_, fun s f changes hbalanced => pop_applyAll_push s f hbalanced⟩
  have h : (Scope.applyAll changes {}).Unrepeated := unrepeated_empty.applyAll changes
  exact ⟨h.get?_snapshot, h.ascending_snapshot, h.encard_has⟩

/-- A function sets a variable of its own with the name of a global one, and calls another function meanwhile. -/
theorem snapshot_agrees_frames_nest_shadowing :
    let s : Scope := { globals := [("x", .int 1), ("n", .int 7)], frames := [⟨"main", [("x", .bool true)]⟩] }
    let inner : List Change := [.set "x" (.int 5), .push "g" [("x", .int 3)], .set "y" (.int 4), .pop, .set "n" (.int 0)]
    Change.Balanced inner ∧ ((s.push ⟨"f", [("n", .int 2)]⟩).applyAll inner).pop = s :=
  ⟨by decide, snapshot_agrees_frames_nest.2 _ _ _ (by decide)⟩

end Scope

end Flowchart
