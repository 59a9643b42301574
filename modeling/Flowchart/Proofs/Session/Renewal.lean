import Flowchart.Proofs.Session.Coherence

/-!
# A run begins anew

A run leaves a session in all sorts of conditions: in the middle of loops, with variables and output of its own,
with half of its answers given, with requests that nobody has taken.  None of this matters to the next run.  What
begins a run sets the session back first, and a session that was set back is known by its setup alone.

* `Session.History.setup_eq` — nothing that is done with a session changes its setup.
* `Session.begin_eq` — two sessions with one setup begin a run alike.
* **`Session.renewed_of_history`** — a run that is begun after any history is the run of a session just opened.
-/

namespace Flowchart.Session

/-! ### Beginnings -/

/-- Whatever was done with a session, its setup is that with which it was opened. -/
theorem History.setup_eq {setup : Setup} {marks : List Mark} {s : Session} (h : History setup marks s) :
    s.setup = setup :=
  h.moments.1.setup_eq

/-- The beginning of a run looks at nothing but the setup. -/
theorem begin_eq {s t : Session} (h : s.setup = t.setup) : s.begin = t.begin := by
  unfold begin
  rw [reset_eq h]

/-- So does a whole stretch from the beginning of a run on. -/
theorem start_eq {s t : Session} (h : s.setup = t.setup) (allowance : Nat) (listener : Listener) :
    s.start allowance listener = t.start allowance listener := by
  unfold start
  rw [begin_eq h]

/-- Between two runs the first block of a new one depends on the setup alone. -/
theorem step_eq {s t : Session} (h : s.setup = t.setup) (hs : s.state = .idle) (ht : t.state = .idle)
    (allowance : Nat) (listener : Listener) : s.step allowance listener = t.step allowance listener := by
  unfold step
  rw [hs, ht]
  dsimp only
  rw [begin_eq h]

/-- Between two runs going on without a break is starting. -/
theorem run_eq_start {s : Session} (hs : s.state = .idle) (allowance : Nat) (listener : Listener) :
    s.run allowance listener = s.start allowance listener := by
  unfold run
  rw [hs]

/-! ### Histories -/

/-- **A run begins anew.**  Whatever was done with a session since it was opened, and in whatever condition it
was left, `start` comes to what it comes to in a session just opened: the same result, the same events and the
same session, down to every variable, loop, pending name and request.  Between two runs the same holds for `step`
and `run`.  Requests that arrive between the beginning of the run and its first block find the same session as
well. -/
theorem renewed_of_history {setup : Setup} {marks : List Mark} {s : Session} (h : History setup marks s) :
    s.begin = (new setup).begin ∧
    (∀ allowance listener, s.start allowance listener = (new setup).start allowance listener) ∧
    (s.state = .idle → ∀ allowance listener,
      s.step allowance listener = (new setup).step allowance listener ∧
      s.run allowance listener = (new setup).run allowance listener) := by
  have hsetup : s.setup = (new setup).setup := h.setup_eq
  refine ⟨begin_eq hsetup, start_eq hsetup, fun hidle allowance listener => ⟨?_, ?_⟩⟩
  · exact step_eq hsetup hidle rfl allowance listener
  · rw [run_eq_start hidle, run_eq_start rfl, start_eq hsetup]

/-- A session that has one of two answers, is to go on without a break and is asked to pause and to stop; and the
session that was stopped after it. -/
theorem renewed_of_history_askingTwice :
    ∃ marks marks' s t, History askingTwice marks s ∧ History askingTwice marks' t ∧
      s.pending = ["y"] ∧ s.resume = true ∧ s.machine.stopRequested = true ∧ s.pauseRequested = true ∧
      s.start 9 .silent = (new askingTwice).start 9 .silent ∧
      t.state = .idle ∧ t.valueOf? "x" = some (.text "five") ∧ t.resume = true ∧
      t.step 9 .silent = (new askingTwice).step 9 .silent ∧ t.run 9 .silent = (new askingTwice).run 9 .silent := by
  let waiting : Session :=
    { setup := askingTwice, current := some 1, state := .paused, pending := ["x", "y"], inputBlock := some 1,
      resume := true }
  let halfway : Session :=
    { waiting with machine := { scope := { globals := [("x", .text "five")] } }, pending := ["y"] }
  have hstart : (new askingTwice).perform 9 .silent .start =
      some { session := waiting, events := [.step ⟨0, .start, ""⟩ [] "", .inputRequired "x"] } := by rfl
  have hanswer : waiting.perform 9 .silent (.provideInput "five") =
      some { session := halfway, events := [.inputRequired "y"] } := by cbv
  have hs : History askingTwice _ (halfway.accept { stop := true, pause := true }) :=
    .requested _ (.operated (.operated .opened hstart) hanswer)
  have hstop : (halfway.accept { stop := true, pause := true }).perform 9 .silent .stop =
      some { session := (halfway.accept { stop := true, pause := true }).halt.1, events := [.complete] } := by rfl
  have ht := History.operated hs hstop
  obtain ⟨hstep, hrun⟩ := (renewed_of_history ht).2.2 rfl 9 .silent
  exact ⟨_, _, _, _, hs, ht, rfl, rfl, rfl, rfl, (renewed_of_history hs).2.1 9 .silent, rfl, rfl, rfl, hstep, hrun⟩

end Flowchart.Session
