import Flowchart.Proofs.Session.Moments

/-!
# What a host is told, and in which order

A host that is told of a run can rely on an order.  A run that fails is over with the next report; after the end
of a run nothing is reported until a new one begins; the output that comes with the blocks of a run only grows;
and every run that begins is either abandoned, or comes to exactly one end, or is going on.

* `Phase` — where a host stands in what it is told; `Phase.Next` and `Phase.Follows` say what may come next.
* `Session.At` — the phase that belongs to a session.
* `Session.Moment.follows` — every moment keeps to the order, and so does a row of moments.
* `Phase.Follows.error_complete`, `begun_of_complete`, `output_grows`, `count_begun` — what the order implies.
* `Orderly` — these properties of what is written down of a session.
* **`Session.orderly_of_history`** — every history is orderly, and no end of a run is missing or reported twice.
-/

namespace Flowchart

/-! ### The order of reports -/

/-- Where a host stands in what it is told. -/
inductive Phase where
  /-- No run is going on. -/
  | between
  /-- A run is going on, and this text was printed when the last block of it was reported. -/
  | during (printed : String)
  /-- An error was reported, and the end of the run still has to be. -/
  | failing

namespace Phase

/-- What may be written down in a phase, and the phase after it. -/
inductive Next : Phase → Mark → Phase → Prop where
  | begun : Next between .begun (during "")
  | step {printed text : String} {b : Block} {snapshot : Snapshot} :
      Next (during printed) (.event (.step b snapshot (printed ++ text))) (during (printed ++ text))
  | input {printed name : String} : Next (during printed) (.event (.inputRequired name)) (during printed)
  | error {printed message : String} : Next (during printed) (.event (.error message)) failing
  | complete {printed : String} : Next (during printed) (.event .complete) between
  | failed : Next failing (.event .complete) between
  | abandoned {printed : String} : Next (during printed) .abandoned between

/-- What may be written down from one phase to another. -/
inductive Follows : Phase → List Mark → Phase → Prop where
  | rest {p : Phase} : Follows p [] p
  | next {p q r : Phase} {m : Mark} {marks : List Mark} (h : Next p m q) (h' : Follows q marks r) :
      Follows p (m :: marks) r

theorem Next.single {p q : Phase} {m : Mark} (h : Next p m q) : Follows p [m] q := .next h .rest

theorem Follows.trans {p q r : Phase} {marks later : List Mark} (h : Follows p marks q)
    (h' : Follows q later r) : Follows p (marks ++ later) r := by
  induction h with
  | rest => exact h'
  | next hm _ ih => exact .next hm (ih h')

/-- Between the marks of a row there is a phase. -/
theorem Follows.split {p r : Phase} {marks later : List Mark} (h : Follows p (marks ++ later) r) :
    ∃ q, Follows p marks q ∧ Follows q later r := by
  induction marks generalizing p with
  | nil => exact ⟨p, .rest, h⟩
  | cons m marks ih =>
    cases h with
    | next hm hrest =>
      obtain ⟨q, hq, hlater⟩ := ih hrest
      exact ⟨q, .next hm hq, hlater⟩

/-! ### What the order implies -/

/-- The report after an error is the end of the run. -/
theorem Follows.error_complete {p q : Phase} {before after : List Mark} {message : String}
    (h : Follows p (before ++ .event (.error message) :: after) q) (hq : q ≠ failing) :
    ∃ rest, after = .event .complete :: rest := by
  obtain ⟨p₁, -, h₁⟩ := h.split
  cases h₁ with
  | next hm hrest =>
    cases hm with
    | error =>
      cases hrest with
      | rest => exact absurd rfl hq
      | next hm' _ =>
        cases hm' with
        | failed => exact ⟨_, rfl⟩

/-- Until a run begins, nothing is written down between two runs. -/
theorem Follows.eq_nil {q : Phase} {marks : List Mark} (h : Follows between marks q) (hm : .begun ∉ marks) :
    marks = [] ∧ q = between := by
  cases h with
  | rest => exact ⟨rfl, rfl⟩
  | next hm' _ =>
    cases hm' with
    | begun => exact absurd List.mem_cons_self hm

/-- Between the end of a run and a later event a new run begins. -/
theorem Follows.begun_of_complete {p q : Phase} {before mid after : List Mark} {e : Event}
    (h : Follows p (before ++ .event .complete :: (mid ++ .event e :: after)) q) : .begun ∈ mid := by
  obtain ⟨p₁, -, h₁⟩ := h.split
  refine Decidable.byContradiction fun hmid => ?_
  have quiet : ∀ {rest : Phase}, ¬Follows between (mid ++ .event e :: after) rest := by
    intro r hr
    obtain ⟨p₂, h₂, h₃⟩ := hr.split
    obtain ⟨-, rfl⟩ := h₂.eq_nil hmid
    cases h₃ with
    | next hm _ => cases hm
  cases h₁ with
  | next hm hrest =>
    cases hm with
    | complete => exact quiet hrest
    | failed => exact quiet hrest

/-- As long as no new run begins, a run is going on with more and more printed, or it is over. -/
theorem Follows.during_or {printed : String} {q : Phase} {marks : List Mark} (h : Follows (during printed) marks q)
    (hm : .begun ∉ marks) : (∃ text, q = during (printed ++ text)) ∨ q = failing ∨ q = between := by
  generalize hp : during printed = p at h
  induction h generalizing printed with
  | rest =>
    subst hp
    exact .inl ⟨"", by simp⟩
  | next hnext hrest ih =>
    have hrest' := fun hmem => hm (List.mem_cons_of_mem _ hmem)
    cases hnext with
    | begun => cases hp
    | @step _ text _ _ =>
      cases hp
      rcases ih hrest' rfl with ⟨more, hq⟩ | hq
      · exact .inl ⟨text ++ more, by rw [hq, String.append_assoc]⟩
      · exact .inr hq
    | input =>
      cases hp
      exact ih hrest' rfl
    | error =>
      cases hrest with
      | rest => exact .inr (.inl rfl)
      | next hm' hrest'' =>
        cases hm' with
        | failed => exact .inr (.inr (hrest''.eq_nil fun h => hrest' (List.mem_cons_of_mem _ h)).2)
    | complete => exact .inr (.inr (hrest.eq_nil hrest').2)
    | failed => cases hp
    | abandoned => exact .inr (.inr (hrest.eq_nil hrest').2)

/-- The output that is reported with a later block of the same run goes on from that of an earlier one. -/
theorem Follows.output_grows {p q : Phase} {before mid after : List Mark} {b b' : Block}
    {snapshot snapshot' : Snapshot} {output output' : String}
    (h : Follows p (before ++ .event (.step b snapshot output) ::
      (mid ++ .event (.step b' snapshot' output') :: after)) q) (hmid : .begun ∉ mid) :
    ∃ text, output' = output ++ text := by
  obtain ⟨p₁, -, h₁⟩ := h.split
  cases h₁ with
  | next hm hrest =>
    cases hm with
    | step =>
      obtain ⟨p₂, h₂, h₃⟩ := hrest.split
      rcases h₂.during_or hmid with ⟨text, rfl⟩ | rfl | rfl
      · cases h₃ with
        | next hm' _ =>
          cases hm' with
          | @step _ more _ _ => exact ⟨text ++ more, by rw [String.append_assoc]⟩
      · cases h₃ with
        | next hm' _ => cases hm'
      · cases h₃ with
        | next hm' _ => cases hm'

/-- One while a run is going on. -/
def runs : Phase → Nat
  | between => 0
  | during _ => 1
  | failing => 1

/-- Every run that begins comes to one end, is abandoned, or is going on. -/
theorem Follows.count_begun {p q : Phase} {marks : List Mark} (h : Follows p marks q) :
    marks.count (.event .complete) + marks.count .abandoned + q.runs = marks.count .begun + p.runs := by
  induction h with
  | rest => simp
  | next hm _ ih => cases hm <;> simp [runs] at ih ⊢ <;> omega

end Phase

namespace Session

/-! ### Sessions keep to the order -/

/-- The phase in which the host of a session stands between two moments: what was reported to be printed is at
the beginning of what was printed. -/
def At (s : Session) : Phase → Prop
  | .between => s.state = .idle
  | .during printed => s.state ≠ .idle ∧ ∃ text, s.output = printed ++ text
  | .failing => False

/-- A run that is going on has a phase of its own. -/
theorem At.exists_during {s : Session} {p : Phase} (h : s.At p) (hs : s.state ≠ .idle) :
    ∃ printed text, p = .during printed ∧ s.output = printed ++ text := by
  cases p with
  | between => exact absurd h hs
  | during printed =>
    obtain ⟨-, text, ht⟩ := h
    exact ⟨printed, text, rfl, ht⟩
  | failing => exact h.elim

/-- Setting a session back leads to the phase between two runs. -/
theorem At.abandonment {s : Session} {p : Phase} (h : s.At p) : Phase.Follows p s.abandonment .between := by
  unfold Session.abandonment
  by_cases hs : s.state = .idle
  · rw [if_pos hs]
    cases p with
    | between => exact .rest
    | during printed => exact absurd hs h.1
    | failing => exact h.elim
  · rw [if_neg hs]
    obtain ⟨printed, _, rfl, -⟩ := h.exists_during hs
    exact Phase.Next.abandoned.single

/-- A block that is reported adds to what was reported before; if nothing comes after it, so is the end. -/
theorem arrive_follows {r : Requests} {b : Block} {s : Session} {printed text : String}
    (hs : s.state ≠ .idle) (ht : s.output = printed ++ text) :
    ∃ q, Phase.Follows (.during printed) ((s.arrive r b).2.map .event) q ∧ (s.arrive r b).1.At q := by
  have hstep : Phase.Next (.during printed) (.event (.step b s.snapshot s.output)) (.during s.output) := by
    rw [ht]
    exact .step
  rcases arrive_cases r b s with hx | hx
  · rw [hx]
    exact ⟨_, hstep.single, hs, "", by rw [String.append_empty]; rfl⟩
  · rw [hx]
    exact ⟨_, .next hstep Phase.Next.complete.single, rfl⟩

/-- **A block keeps to the order.** -/
theorem Stepped.follows {r : Requests} {s : Session} {x : Session × List Event} (h : Stepped r s x)
    {printed text : String} (hs : s.state ≠ .idle) (ht : s.output = printed ++ text) :
    ∃ q, Phase.Follows (.during printed) (x.2.map .event) q ∧ x.1.At q := by
  cases h with
  | ends _ => exact ⟨_, Phase.Next.complete.single, rfl⟩
  | fails _ => exact ⟨_, .next .error Phase.Next.failed.single, rfl⟩
  | @arrives b target m _ hm =>
    obtain ⟨more, hmore⟩ := hm.printed
    have hprinted : output { s with machine := m, current := target } = printed ++ (text ++ more) := by
      show m.output = _
      rw [hmore, ← String.append_assoc, ← ht]
      rfl
    exact arrive_follows hs hprinted
  | @awaits b names _ _ =>
    have hpaused : (await b.id names s).1.At (.during printed) := ⟨RunState.noConfusion, text, ht⟩
    cases names with
    | nil => exact ⟨_, .rest, hpaused⟩
    | cons name rest => exact ⟨_, Phase.Next.input.single, hpaused⟩

/-- The last answer of a block keeps to the order: the block is reported with it. -/
theorem leaveInput_follows {r : Requests} {s : Session} {printed text : String}
    (ht : s.output = printed ++ text) :
    ∃ q, Phase.Follows (.during printed) ((s.leaveInput r).2.map .event) q ∧ (s.leaveInput r).1.At q := by
  unfold leaveInput
  dsimp only
  split
  · exact arrive_follows RunState.noConfusion ht
  · split
    · exact ⟨_, .rest, RunState.noConfusion, text, ht⟩
    · exact ⟨_, Phase.Next.complete.single, rfl⟩

/-- **Every moment keeps to the order.** -/
theorem Moment.follows {s t : Session} {marks : List Mark} {p : Phase} (h : Moment s marks t) (hp : s.At p) :
    ∃ q, Phase.Follows p marks q ∧ t.At q := by
  cases h with
  | begins _ hmode =>
    refine ⟨_, hp.abandonment.trans Phase.Next.begun.single, ?_, "", rfl⟩
    rcases hmode with rfl | rfl <;> exact RunState.noConfusion
  | refuses _ =>
    exact ⟨_, hp.abandonment.trans (.next .begun (.next .error Phase.Next.failed.single)), rfl⟩
  | executes hgoing hstep =>
    obtain ⟨printed, text, rfl, ht⟩ := hp.exists_during hgoing.ne_idle
    exact hstep.follows hgoing.ne_idle ht
  | changes hgoing hmode =>
    obtain ⟨printed, text, rfl, ht⟩ := hp.exists_during hgoing.ne_idle
    refine ⟨_, .rest, ?_, text, ht⟩
    rcases hmode with rfl | rfl <;> exact RunState.noConfusion
  | resumes hpaused =>
    obtain ⟨printed, text, rfl, ht⟩ := hp.exists_during (by rw [hpaused]; exact RunState.noConfusion)
    exact ⟨_, .rest, hp.1, text, ht⟩
  | answers hpaused _ =>
    obtain ⟨printed, text, rfl, ht⟩ := hp.exists_during (by rw [hpaused]; exact RunState.noConfusion)
    exact ⟨_, Phase.Next.input.single, hp.1, text, ht⟩
  | leaves hpaused _ =>
    obtain ⟨printed, text, rfl, ht⟩ := hp.exists_during (by rw [hpaused]; exact RunState.noConfusion)
    exact leaveInput_follows ht
  | stops hs =>
    obtain ⟨printed, text, rfl, ht⟩ := hp.exists_during hs
    exact ⟨_, Phase.Next.complete.single, rfl⟩
  | clears hs => exact ⟨p, .rest, by cases p <;> exact hp⟩
  | resets => exact ⟨_, hp.abandonment, rfl⟩
  | accepts r => exact ⟨p, .rest, by cases p <;> exact hp⟩

/-- Moments one after the other keep to the order. -/
theorem Moments.follows {s t : Session} {marks : List Mark} {p : Phase} (h : Moments s marks t) (hp : s.At p) :
    ∃ q, Phase.Follows p marks q ∧ t.At q := by
  induction h generalizing p with
  | rest => exact ⟨p, .rest, hp⟩
  | next hm _ ih =>
    obtain ⟨q, hfollows, hq⟩ := hm.follows hp
    obtain ⟨r, hlater, hr⟩ := ih hq
    exact ⟨r, hfollows.trans hlater, hr⟩

/-! ### Histories are orderly -/

end Session

/-- What is written down of a session is in order. -/
structure Orderly (marks : List Mark) : Prop where
  /-- An error is followed at once by the end of the run. -/
  error_complete : ∀ (before after : List Mark) (message : String),
    marks = before ++ Mark.event (.error message) :: after → ∃ rest, after = Mark.event .complete :: rest
  /-- After the end of a run no event is reported until a new run begins. -/
  begun_of_complete : ∀ (before mid after : List Mark) (e : Event),
    marks = before ++ Mark.event .complete :: (mid ++ Mark.event e :: after) → Mark.begun ∈ mid
  /-- The output that is reported with a block is, within one run, the beginning of that of later blocks. -/
  output_grows : ∀ (before mid after : List Mark) (b b' : Block) (snapshot snapshot' : Snapshot)
    (output output' : String),
    marks = before ++ Mark.event (.step b snapshot output) ::
      (mid ++ Mark.event (.step b' snapshot' output') :: after) →
    Mark.begun ∉ mid → ∃ text, output' = output ++ text

namespace Session

/-- **What a host is told is in order**, whatever it does with a session and whenever it makes requests.  An error
is followed at once by the end of the run; after the end of a run nothing is reported until a new one begins;
within a run the reported output only grows.  And no end is missing or reported twice: of the runs that were
begun, those without a start block among them, every one has come to an end or was abandoned, except for the one
that is going on. -/
theorem orderly_of_history {setup : Setup} {marks : List Mark} {s : Session} (h : History setup marks s) :
    Orderly marks ∧
      marks.count (.event .complete) + marks.count .abandoned + (if s.state = .idle then 0 else 1) =
        marks.count .begun := by
  obtain ⟨q, hfollows, hq⟩ := h.moments.1.follows (p := .between) rfl
  have hfailing : q ≠ .failing := by
    rintro rfl
    exact hq
  have hruns : q.runs = if s.state = .idle then 0 else 1 := by
    cases q with
    | between =>
      have hidle : s.state = .idle := hq
      rw [if_pos hidle]
      rfl
    | during printed =>
      rw [if_neg hq.1]
      rfl
    | failing => exact absurd rfl hfailing
  refine ⟨⟨?_, ?_, ?_⟩, ?_⟩
  · rintro before after message rfl
    exact hfollows.error_complete hfailing
  · rintro before mid after e rfl
    exact hfollows.begun_of_complete
  · rintro before mid after b b' snapshot snapshot' output output' rfl hmid
    exact hfollows.output_grows hmid
  · rw [← hruns]
    exact hfollows.count_begun

/-- A chart whose runs fail, for want of a condition. -/
def faulty : Setup :=
  { program :=
      { main :=
          { blocks := [⟨0, .start, ""⟩, ⟨1, .conditional, ""⟩, ⟨2, .finish, ""⟩]
            edges := [⟨0, 1, none, none⟩, ⟨1, 2, none, none⟩] } } }

/-- What is reported when a run of this chart fails. -/
def faultyEnd : List Event :=
  [.error (failureMessage (Fault.invalidLabel .conditional "" "missing condition").message), .complete]

/-- A run is abandoned after one block for a second run, which fails. -/
theorem orderly_of_history_faulty :
    ∃ marks s, History faulty marks s ∧ s.state = .idle ∧ marks.count .begun = 2 ∧ marks.count .abandoned = 1 ∧
      Orderly marks ∧
      marks.count (.event .complete) + marks.count .abandoned + (if s.state = .idle then 0 else 1) =
        marks.count .begun := by
  let stands (state : RunState) : Session := { setup := faulty, current := some 1, state }
  have hstep : (new faulty).perform 9 .silent .step =
      some { session := stands .stepping, events := [.step ⟨0, .start, ""⟩ [] ""] } := by rfl
  have hstart : (stands .stepping).perform 9 .silent .start =
      some { session := stands .idle, events := .step ⟨0, .start, ""⟩ [] "" :: faultyEnd } := by rfl
  have h := History.operated (.operated .opened hstep) hstart
  exact ⟨_, _, h, rfl, by decide, by decide, orderly_of_history h⟩

end Session

end Flowchart
