import Flowchart.Proofs.Session.Moments

/-!
# A session between two operations

A session has several fields that say the same in different words: its state, the variables that wait for values,
the block they stand on, the block that comes next.  Operations write them in many places, and the fields agree
all the same, whatever the order of the operations and however a run ends.

* `Session.Waits` — the session waits at an input block for values of its last variables.
* `Session.Coherent` — the invariant: nothing of a function call is left over, no loop is entered twice, and the
  session waits exactly when its state says so.
* `Session.Moment.coherent` — every moment keeps it; the interesting ones are blocks (`Stepped.coherent`) and the
  last answer (`Coherent.leaveInput`).
* **`Session.coherent_of_history`** — what holds of a session between any two operations, and when an answer is
  refused.
-/

namespace Flowchart

/-! ### Input blocks -/

/-- A block is found by its own number. -/
theorem Graph.id_of_block? {g : Graph} {id : BlockId} {b : Block} (h : g.block? id = some b) : b.id = id :=
  (mem_of_block? h).2

/-- An input block asks for at least one value. -/
theorem Block.input_ne_nil {b : Block} {names : List String} (h : b.instruction = .ok (.input names)) :
    names ≠ [] := by
  have hkind : b.kind = .input := (Block.kind_of_instruction h).symm
  unfold Block.instruction Instruction.ofLabel at h
  rw [hkind] at h
  simp only [Instruction.readInput] at h
  split at h
  · next hlabel =>
    split at hlabel
    · cases hlabel
    · next hne =>
      have hnames := Instruction.input.inj ((Except.ok.inj hlabel).trans (Except.ok.inj h))
      rw [← hnames]
      simpa using hne
  · cases h

namespace Session

/-- The block that comes next is on the main chart, and its number is the current one. -/
theorem nextBlock?_spec {s : Session} {b : Block} (h : s.nextBlock? = some b) :
    s.current = some b.id ∧ s.program.main.block? b.id = some b := by
  have hcurrent : s.currentBlock? = some b := (Option.filter_eq_some_iff.mp h).1
  obtain ⟨id, hid, hblock⟩ := Option.bind_eq_some_iff.mp hcurrent
  rw [Graph.id_of_block? hblock]
  exact ⟨hid, hblock⟩

/-! ### The invariant -/

/-- The session waits at a block for values of the last ones of the variables named there. -/
structure Waits (s : Session) (b : Block) (names : List String) : Prop where
  found : s.program.main.block? b.id = some b
  label : b.instruction = .ok (.input names)
  current_eq : s.current = some b.id
  inputBlock_eq : s.inputBlock = some b.id
  pending_ne : s.pending ≠ []
  pending_suffix : s.pending <:+ names

/-- The fields of a session agree. -/
structure Coherent (s : Session) : Prop where
  grounded : s.machine.Grounded
  waits : s.state = .paused → ∃ b names, s.Waits b names
  rests : s.state ≠ .paused → s.pending = [] ∧ s.inputBlock = none

/-- A session that does not wait is coherent if its machine is on the ground and nothing is pending. -/
theorem Coherent.of_rests {s : Session} (hg : s.machine.Grounded) (hstate : s.state ≠ .paused)
    (hpending : s.pending = []) (hblock : s.inputBlock = none) : s.Coherent :=
  ⟨hg, fun h => absurd h hstate, fun _ => ⟨hpending, hblock⟩⟩

/-- Before a run no function is being executed. -/
theorem frames_initialScope (setup : Setup) : setup.initialScope.frames = [] := by
  have hfold : ∀ (presets : List (String × Value)) (s : Scope), s.frames = [] →
      (presets.foldl (fun s p => s.set p.1 p.2) s).frames = [] := by
    intro presets
    induction presets with
    | nil => exact fun _ hs => hs
    | cons p rest ih => exact fun s hs => ih _ (Machine.frames_set hs p.1 p.2)
  exact hfold setup.presets {} rfl

theorem grounded_reset (s : Session) : s.reset.machine.Grounded :=
  ⟨frames_initialScope s.setup, List.nodup_nil⟩

/-! ### What keeps it -/

theorem Coherent.halt {s : Session} (h : s.machine.Grounded) : s.halt.1.Coherent :=
  .of_rests ⟨h.frames_eq, h.loops_nodup⟩ RunState.noConfusion rfl rfl

/-- Requests do not disturb a session. -/
theorem Coherent.accept {s : Session} (h : s.Coherent) (r : Requests) : (s.accept r).Coherent where
  grounded := ⟨h.grounded.frames_eq, h.grounded.loops_nodup⟩
  waits := by
    intro hstate
    obtain ⟨b, names, hw⟩ := h.waits hstate
    exact ⟨b, names, hw.found, hw.label, hw.current_eq, hw.inputBlock_eq, hw.pending_ne, hw.pending_suffix⟩
  rests := h.rests

/-- Behind a block that was executed nothing is pending. -/
theorem Coherent.arrive {s : Session} (h : s.Coherent) (r : Requests) (b : Block) :
    (s.arrive r b).1.Coherent := by
  rcases arrive_cases r b s with hx | hx
  · rw [hx]
    exact h.accept r
  · rw [hx]
    exact .halt (h.accept r).grounded

/-- **A block keeps the fields in agreement.**  A block that asks for values is the current one, and all of its
variables are pending. -/
theorem Stepped.coherent {r : Requests} {s : Session} {x : Session × List Event} (h : Stepped r s x)
    (hs : s.Coherent) (hgoing : s.Going) : x.1.Coherent := by
  obtain ⟨hpending, hblock⟩ := hs.rests hgoing.ne_paused
  cases h with
  | ends hm => exact .halt (hm.grounded hs.grounded)
  | fails hm => exact .halt (hm.grounded hs.grounded)
  | @arrives b target m hb hm =>
    have hleft : Coherent { s with machine := m, current := target } :=
      .of_rests (hm.grounded hs.grounded) hgoing.ne_paused hpending hblock
    exact hleft.arrive r b
  | @awaits b names hb hlabel =>
    obtain ⟨hcurrent, hfound⟩ := nextBlock?_spec hb
    refine ⟨hs.grounded, fun _ => ⟨b, names, ?_⟩, fun hne => absurd rfl hne⟩
    exact ⟨hfound, hlabel, hcurrent, rfl, Block.input_ne_nil hlabel, List.suffix_refl names⟩

/-- A value that is given becomes a global. -/
theorem grounded_answer {s : Session} (h : s.machine.Grounded) (name text : String) :
    (s.answer name text).machine.Grounded :=
  ⟨Machine.frames_set h.frames_eq name _, h.loops_nodup⟩

/-- **After the last answer nothing is pending**: the block that waited is found, and control moves on from it. -/
theorem Coherent.leaveInput {s : Session} {b : Block} (hg : s.machine.Grounded) (hpending : s.pending = [])
    (hblock : s.inputBlock.bind s.program.main.block? = some b) (r : Requests) :
    (s.leaveInput r).1.Coherent := by
  have hleft : Coherent
      { s with
        inputBlock := none, resume := false, state := .stepping, current := s.program.main.successor? b.id } :=
    .of_rests hg RunState.noConfusion hpending rfl
  unfold Session.leaveInput
  rw [hblock]
  exact hleft.arrive r b

/-- **Every moment keeps the fields in agreement.** -/
theorem Moment.coherent {s t : Session} {marks : List Mark} (h : Moment s marks t) (hs : s.Coherent) :
    t.Coherent := by
  cases h with
  | begins hstart hmode =>
    refine .of_rests (grounded_reset s) ?_ rfl rfl
    rcases hmode with rfl | rfl <;> exact RunState.noConfusion
  | refuses hstart => exact .of_rests (grounded_reset s) RunState.noConfusion rfl rfl
  | executes hgoing hstep => exact hstep.coherent hs hgoing
  | changes hgoing hmode =>
    obtain ⟨hpending, hblock⟩ := hs.rests hgoing.ne_paused
    refine .of_rests hs.grounded ?_ hpending hblock
    rcases hmode with rfl | rfl <;> exact RunState.noConfusion
  | resumes hpaused =>
    obtain ⟨b, names, hw⟩ := hs.waits hpaused
    refine ⟨hs.grounded, fun _ => ⟨b, names, ?_⟩, fun hne => absurd hpaused hne⟩
    exact ⟨hw.found, hw.label, hw.current_eq, hw.inputBlock_eq, hw.pending_ne, hw.pending_suffix⟩
  | @answers _ name next text rest hpaused hp =>
    obtain ⟨b, names, hw⟩ := hs.waits hpaused
    have hsuffix := hw.pending_suffix
    rw [hp] at hsuffix
    refine ⟨grounded_answer hs.grounded name text, fun _ => ⟨b, names, ?_⟩, fun hne => absurd hpaused hne⟩
    exact ⟨hw.found, hw.label, hw.current_eq, hw.inputBlock_eq, List.cons_ne_nil _ _,
      (List.suffix_cons name _).trans hsuffix⟩
  | @leaves r _ name text hpaused hp =>
    obtain ⟨b, names, hw⟩ := hs.waits hpaused
    have hblock : s.inputBlock.bind s.program.main.block? = some b := by
      rw [hw.inputBlock_eq, Option.bind_some, hw.found]
    exact Coherent.leaveInput (s := { s.answer name text with pending := [] })
      (grounded_answer hs.grounded name text) rfl hblock r
  | stops _ => exact .halt hs.grounded
  | clears hidle =>
    obtain ⟨hpending, hblock⟩ := hs.rests (by rw [hidle]; exact RunState.noConfusion)
    refine .of_rests ⟨hs.grounded.frames_eq, hs.grounded.loops_nodup⟩ ?_ hpending hblock
    show s.state ≠ .paused
    rw [hidle]
    exact RunState.noConfusion
  | resets => exact .of_rests (grounded_reset s) RunState.noConfusion rfl rfl
  | accepts r => exact hs.accept r

theorem Moments.coherent {s t : Session} {marks : List Mark} (h : Moments s marks t) (hs : s.Coherent) :
    t.Coherent := by
  induction h with
  | rest => exact hs
  | next hm _ ih => exact ih (hm.coherent hs)

theorem coherent_new (setup : Setup) : (new setup).Coherent :=
  .of_rests ⟨rfl, List.nodup_nil⟩ RunState.noConfusion rfl rfl

/-- The setup of a session is that with which it was opened. -/
theorem Moment.setup_eq {s t : Session} {marks : List Mark} (h : Moment s marks t) : t.setup = s.setup := by
  cases h with
  | executes _ hstep =>
    cases hstep with
    | ends _ => rfl
    | fails _ => rfl
    | @arrives b target m _ _ =>
      rcases arrive_cases _ b { s with machine := m, current := target } with hx | hx <;> rw [hx] <;> rfl
    | awaits _ _ => rfl
  | @leaves r _ name text _ _ =>
    unfold Session.leaveInput
    dsimp only
    split
    · next b _ =>
      rcases arrive_cases r b _ with hx | hx <;> rw [hx] <;> rfl
    · split <;> rfl
  | _ => rfl

theorem Moments.setup_eq {s t : Session} {marks : List Mark} (h : Moments s marks t) : t.setup = s.setup := by
  induction h with
  | rest => rfl
  | next hm _ ih => rw [ih, hm.setup_eq]

/-! ### Answers that are refused -/

/-- While no value is wanted an answer is refused: nothing is reported and nothing changes. -/
theorem provideInput_of_ne {s : Session} (hs : s.state ≠ .paused) (allowance : Nat) (listener : Listener)
    (text : String) :
    s.provideInput allowance listener text = some { result := .error .notAwaitingInput, session := s } := by
  unfold provideInput
  cases hstate : s.state with
  | paused => exact absurd hstate hs
  | _ => rfl

/-- An answer to a variable that waits is not refused. -/
theorem provideInput_of_pending {allowance : Nat} {listener : Listener} {text : String} {s : Session} {r : Reply}
    (hs : s.state = .paused) (hp : s.pending ≠ []) (h : s.provideInput allowance listener text = some r) :
    r.result = .ok () := by
  have of_replied : ∀ {moved : Option (Session × List Event)}, replied moved = some r → r.result = .ok () := by
    intro moved hmoved
    obtain ⟨x, -, hx⟩ := Option.map_eq_some_iff.mp hmoved
    rw [← hx]
  unfold provideInput at h
  rw [hs] at h
  match hpending : s.pending with
  | [] => exact absurd hpending hp
  | name :: next :: rest =>
    rw [hpending] at h
    cases h
    rfl
  | [name] =>
    rw [hpending] at h
    dsimp only at h
    split at h
    · exact of_replied h
    · cases h
      rfl

/-- **Between two operations.**  Whatever was done with a session since it was opened, it is not in the middle of
a stretch of blocks.  It is paused exactly when a variable waits for a value, and exactly when a block is noted
on which variables wait; this block is then the current one, an input block of the main chart, and the last of
its variables wait, at least one of them.  No function is being executed, and no loop is entered twice.  An
answer is refused exactly when the session is not paused, and then nothing is reported and nothing changes. -/
theorem coherent_of_history {setup : Setup} {marks : List Mark} {s : Session} (h : History setup marks s) :
    s.state ≠ .running ∧
    (s.state = .paused ↔ s.pending ≠ []) ∧
    (s.state = .paused ↔ s.inputBlock ≠ none) ∧
    (s.state = .paused → ∃ b names, s.inputBlock = some b.id ∧ s.current = some b.id ∧
      setup.program.main.block? b.id = some b ∧ b.kind = .input ∧ b.instruction = .ok (.input names) ∧
      s.pending ≠ [] ∧ s.pending <:+ names) ∧
    s.machine.scope.frames = [] ∧ s.machine.loops.Nodup ∧
    ∀ allowance listener text,
      (s.state ≠ .paused → s.provideInput allowance listener text =
        some { result := .error .notAwaitingInput, session := s, events := [] }) ∧
      (s.state = .paused → ∀ r, s.provideInput allowance listener text = some r → r.result = .ok ()) := by
  obtain ⟨hrow, hrunning⟩ := h.moments
  have hs : s.Coherent := hrow.coherent (coherent_new setup)
  have hsetup : s.setup = setup := hrow.setup_eq
  have hwaits : s.state = .paused → ∃ b names, s.inputBlock = some b.id ∧ s.current = some b.id ∧
      setup.program.main.block? b.id = some b ∧ b.kind = .input ∧ b.instruction = .ok (.input names) ∧
      s.pending ≠ [] ∧ s.pending <:+ names := by
    intro hpaused
    obtain ⟨b, names, hw⟩ := hs.waits hpaused
    have hfound := hw.found
    unfold program at hfound
    rw [hsetup] at hfound
    exact ⟨b, names, hw.inputBlock_eq, hw.current_eq, hfound, (Block.kind_of_instruction hw.label).symm, hw.label,
      hw.pending_ne, hw.pending_suffix⟩
  have hpending : s.state = .paused ↔ s.pending ≠ [] := by
    constructor
    · intro hpaused
      obtain ⟨_, _, _, _, _, _, _, hne, _⟩ := hwaits hpaused
      exact hne
    · exact fun hne => Decidable.byContradiction fun hnot => hne (hs.rests hnot).1
  have hblock : s.state = .paused ↔ s.inputBlock ≠ none := by
    constructor
    · intro hpaused
      obtain ⟨_, _, hnoted, _⟩ := hwaits hpaused
      rw [hnoted]
      exact Option.some_ne_none _
    · exact fun hne => Decidable.byContradiction fun hnot => hne (hs.rests hnot).2
  refine ⟨hrunning, hpending, hblock, hwaits, hs.grounded.frames_eq, hs.grounded.loops_nodup, ?_⟩
  intro allowance listener text
  exact ⟨fun hne => provideInput_of_ne hne allowance listener text,
    fun hpaused r hr => provideInput_of_pending hpaused (hpending.mp hpaused) hr⟩

/-- A chart with a block that asks for two values. -/
def askingTwice : Setup :=
  { program :=
      { main :=
          { blocks := [⟨0, .start, ""⟩, ⟨1, .input, "x, y"⟩, ⟨2, .finish, ""⟩]
            edges := [⟨0, 1, none, none⟩, ⟨1, 2, none, none⟩] } } }

/-- After the first answer the session still waits, for the second variable of the block. -/
theorem coherent_of_history_askingTwice :
    ∃ marks s, History askingTwice marks s ∧ s.pending = ["y"] ∧
      ∃ b names, s.inputBlock = some b.id ∧ s.current = some b.id ∧
        askingTwice.program.main.block? b.id = some b ∧ b.kind = .input ∧
        b.instruction = .ok (.input names) ∧ s.pending ≠ [] ∧ s.pending <:+ names := by
  let waiting : Session :=
    { setup := askingTwice, current := some 1, state := .paused, pending := ["x", "y"], inputBlock := some 1,
      resume := true }
  let answered : Session :=
    { waiting with machine := { scope := { globals := [("x", .text "five")] } }, pending := ["y"] }
  have hstart : (new askingTwice).perform 9 .silent .start =
      some { session := waiting, events := [.step ⟨0, .start, ""⟩ [] "", .inputRequired "x"] } := by rfl
  have hanswer : waiting.perform 9 .silent (.provideInput "five") =
      some { session := answered, events := [.inputRequired "y"] } := by cbv
  have h : History askingTwice _ answered := .operated (.operated .opened hstart) hanswer
  exact ⟨_, answered, h, rfl, (coherent_of_history h).2.2.2.1 rfl⟩

end Session

end Flowchart
