import Flowchart.Proofs.Routine.Basic

/-!
# Where the loops of a routine lie

The edges of a chart that is drawn from a routine enter the body of a loop in one place only, from the head of the
loop.  They leave it for the head, or by a way out.  What makes a loop start afresh is that there is no way back to
its head from outside that does not come past the head of a loop around it.

* `Routine.Apart`, `Routine.Part`, `Routine.Sequel` — the parts of a routine, what they are left for, and from where
  they are entered: parts that come after others, and the bodies of loops.
* `Routine.Placed` — a routine among the edges of a whole chart.  `Placed.part` goes from a routine to its parts.
* `Heading.Fits` — the edges at the head and at the body of a loop; **`Placed.fits`**, by induction on the routine.
* `Heading.Guard` — a zone around the head of a loop and outside of its body, which is entered from the heads of loops
  around it only.  **`Placed.guards`**: in a tidy routine every counting loop has one.  For a loop without a way out
  it is everything but its body.  For a loop with a way out it is what comes before the loop (`Sealed`) in the body of
  the innermost loop around it, whose head is tracked.
-/

namespace Flowchart

/-! ### Parts of routines -/

namespace Routine

/-- The blocks of a routine have numbers of their own, and what it is left for lies outside. -/
structure Apart (r : Routine) (exit out : BlockId) : Prop where
  nodup : r.ids.Nodup
  exit_not_mem : exit ∉ r.ids
  out_not_mem : out ∉ r.ids

/-- How a part lies in a routine: what the part is left for, and by which edges of the routine it is entered. -/
structure Part (r : Routine) (exit out : BlockId) (part : Routine) (exit' out' : BlockId) (door : Edge → Prop) :
    Prop where
  apart : part.Apart exit' out'
  subset : ∀ i ∈ part.ids, i ∈ r.ids
  entry_not_mem : r.entry exit ∉ part.ids
  edges : ∀ e ∈ r.edges exit out, e ∈ part.edges exit' out' ∨
    (e.source ∉ part.ids ∧ (e.target ∈ part.ids → door e ∧ e.target = part.entry exit'))

/-- A part that comes after other blocks of the routine: it is entered from them, and there is no way back. -/
structure Sequel (r : Routine) (exit out : BlockId) (part : Routine) (exit' out' : BlockId) (earlier : List BlockId) :
    Prop extends Part r exit out part exit' out' (fun e => e.source ∈ earlier) where
  earlier_subset : ∀ i ∈ earlier, i ∈ r.ids
  earlier_not_mem : ∀ i ∈ earlier, i ∉ part.ids
  closed : ∀ e ∈ r.edges exit out, e.target ∈ earlier → e.source ∈ earlier

section
variable {exit out : BlockId} {test join node head entry : Node} {yes no body next : Routine}

-- The cases of the proofs below are the edges of the whole, in the order of `edges`: those at the blocks of the
-- statement itself, then those of its parts.

/-- What follows a statement is entered from the statement. -/
theorem sequel_simple {kind : Simple} (h : (simple kind node next).Apart exit out) :
    Sequel (simple kind node next) exit out next exit out [node.id] := by
  obtain ⟨hnodup, hexit, hout⟩ := h
  simp only [ids_simple, List.nodup_cons, List.mem_cons, not_or] at hnodup hexit hout
  refine {
    apart := ⟨by grind, by grind, by grind⟩
    subset := by grind [ids_simple]
    entry_not_mem := by grind [Routine.entry]
    edges := fun e he => ?edges
    earlier_subset := by grind [ids_simple]
    earlier_not_mem := by grind
    closed := fun e he htarget => ?closed }
  case edges =>
    simp only [edges, List.mem_cons] at he
    rcases he with rfl | he
    · grind
    · exact .inl he
  case closed =>
    simp only [edges, List.mem_cons] at he
    rcases he with rfl | he
    · simp
    · grind [target_mem he]

/-- What follows a way out is entered from its test. -/
theorem sequel_leave (h : (leave test next).Apart exit out) :
    Sequel (leave test next) exit out next exit out [test.id] := by
  obtain ⟨hnodup, hexit, hout⟩ := h
  simp only [ids_leave, List.nodup_cons, List.mem_cons, not_or] at hnodup hexit hout
  refine {
    apart := ⟨by grind, by grind, by grind⟩
    subset := by grind [ids_leave]
    entry_not_mem := by grind [Routine.entry]
    edges := fun e he => ?edges
    earlier_subset := by grind [ids_leave]
    earlier_not_mem := by grind
    closed := fun e he htarget => ?closed }
  case edges =>
    simp only [edges, List.mem_cons] at he
    rcases he with rfl | rfl | he
    · grind
    · grind
    · exact .inl he
  case closed =>
    simp only [edges, List.mem_cons] at he
    rcases he with rfl | rfl | he
    · simp
    · simp
    · grind [target_mem he]

/-- The branches of a choice are entered from its test, and left for the block where they meet. -/
theorem sequel_yes (h : (choice test join yes no next).Apart exit out) :
    Sequel (choice test join yes no next) exit out yes join.id out [test.id] := by
  obtain ⟨hnodup, hexit, hout⟩ := h
  simp only [ids_choice, List.nodup_cons, List.nodup_append', List.mem_cons, List.mem_append, not_or,
    List.Disjoint] at hnodup hexit hout
  refine {
    apart := ⟨by grind, by grind, by grind⟩
    subset := by grind [ids_choice]
    entry_not_mem := by grind [Routine.entry]
    edges := fun e he => ?edges
    earlier_subset := by grind [ids_choice]
    earlier_not_mem := by grind
    closed := fun e he htarget => ?closed }
  case edges =>
    simp only [edges, List.mem_cons, List.mem_append] at he
    rcases he with rfl | rfl | rfl | (he | he) | he
    · grind
    · grind [entry_mem]
    · grind [entry_mem]
    · exact .inl he
    · grind [source_mem he, target_mem he]
    · grind [source_mem he, target_mem he]
  case closed =>
    simp only [edges, List.mem_cons, List.mem_append] at he
    rcases he with rfl | rfl | rfl | (he | he) | he
    · simp
    · simp
    · grind [entry_mem]
    · grind [target_mem he]
    · grind [target_mem he]
    · grind [target_mem he]

theorem sequel_no (h : (choice test join yes no next).Apart exit out) :
    Sequel (choice test join yes no next) exit out no join.id out [test.id] := by
  obtain ⟨hnodup, hexit, hout⟩ := h
  simp only [ids_choice, List.nodup_cons, List.nodup_append', List.mem_cons, List.mem_append, not_or,
    List.Disjoint] at hnodup hexit hout
  refine {
    apart := ⟨by grind, by grind, by grind⟩
    subset := by grind [ids_choice]
    entry_not_mem := by grind [Routine.entry]
    edges := fun e he => ?edges
    earlier_subset := by grind [ids_choice]
    earlier_not_mem := by grind
    closed := fun e he htarget => ?closed }
  case edges =>
    simp only [edges, List.mem_cons, List.mem_append] at he
    rcases he with rfl | rfl | rfl | (he | he) | he
    · grind [entry_mem]
    · grind
    · grind [entry_mem]
    · grind [source_mem he, target_mem he]
    · exact .inl he
    · grind [source_mem he, target_mem he]
  case closed =>
    simp only [edges, List.mem_cons, List.mem_append] at he
    rcases he with rfl | rfl | rfl | (he | he) | he
    · simp
    · simp
    · grind [entry_mem]
    · grind [target_mem he]
    · grind [target_mem he]
    · grind [target_mem he]

/-- What follows a choice is entered from the block where its branches meet. -/
theorem sequel_choice (h : (choice test join yes no next).Apart exit out) :
    Sequel (choice test join yes no next) exit out next exit out (test.id :: join.id :: (yes.ids ++ no.ids)) := by
  obtain ⟨hnodup, hexit, hout⟩ := h
  simp only [ids_choice, List.nodup_cons, List.nodup_append', List.mem_cons, List.mem_append, not_or,
    List.Disjoint] at hnodup hexit hout
  refine {
    apart := ⟨by grind, by grind, by grind⟩
    subset := by grind [ids_choice]
    entry_not_mem := by grind [Routine.entry]
    edges := fun e he => ?edges
    earlier_subset := by grind [ids_choice]
    earlier_not_mem := by grind
    closed := fun e he htarget => ?closed }
  case edges =>
    simp only [edges, List.mem_cons, List.mem_append] at he
    rcases he with rfl | rfl | rfl | (he | he) | he
    · grind [entry_mem]
    · grind [entry_mem]
    · grind
    · grind [source_mem he, target_mem he]
    · grind [source_mem he, target_mem he]
    · exact .inl he
  case closed =>
    simp only [edges, List.mem_cons, List.mem_append] at he
    rcases he with rfl | rfl | rfl | (he | he) | he
    · simp
    · simp
    · simp
    · grind [source_mem he]
    · grind [source_mem he]
    · grind [target_mem he]

/-- What follows a loop is entered from its head, or from its body by a way out. -/
theorem sequel_loop {kind : Looping} (h : (loop kind head body next).Apart exit out) :
    Sequel (loop kind head body next) exit out next exit out (head.id :: body.ids) := by
  obtain ⟨hnodup, hexit, hout⟩ := h
  simp only [ids_loop, List.nodup_cons, List.nodup_append', List.mem_cons, List.mem_append, not_or,
    List.Disjoint] at hnodup hexit hout
  refine {
    apart := ⟨by grind, by grind, by grind⟩
    subset := by grind [ids_loop]
    entry_not_mem := by grind [Routine.entry]
    edges := fun e he => ?edges
    earlier_subset := by grind [ids_loop]
    earlier_not_mem := by grind
    closed := fun e he htarget => ?closed }
  case edges =>
    simp only [edges, List.mem_cons, List.mem_append] at he
    rcases he with rfl | rfl | he | he
    · grind [entry_mem]
    · grind
    · grind [source_mem he, target_mem he]
    · exact .inl he
  case closed =>
    simp only [edges, List.mem_cons, List.mem_append] at he
    rcases he with rfl | rfl | he | he
    · simp
    · simp
    · grind [source_mem he]
    · grind [target_mem he]

/-- The body of a loop is entered from its head when the test succeeds, and left for the head. -/
theorem part_loop {kind : Looping} (h : (loop kind head body next).Apart exit out) :
    Part (loop kind head body next) exit out body head.id (next.entry exit)
      (fun e => e.source = head.id ∧ e.branch = some .whenTrue) := by
  obtain ⟨hnodup, hexit, hout⟩ := h
  simp only [ids_loop, List.nodup_cons, List.nodup_append', List.mem_cons, List.mem_append, not_or,
    List.Disjoint] at hnodup hexit hout
  refine {
    apart := ⟨by grind, by grind, by grind [entry_mem]⟩
    subset := by grind [ids_loop]
    entry_not_mem := by grind [Routine.entry]
    edges := fun e he => ?edges }
  simp only [edges, List.mem_cons, List.mem_append] at he
  rcases he with rfl | rfl | he | he
  · grind
  · grind [entry_mem]
  · exact .inl he
  · grind [source_mem he, target_mem he]

/-- What follows a loop that tests after its body is entered from the test, or from the body by a way out. -/
theorem sequel_doLoop (h : (doLoop entry test body next).Apart exit out) :
    Sequel (doLoop entry test body next) exit out next exit out (entry.id :: test.id :: body.ids) := by
  obtain ⟨hnodup, hexit, hout⟩ := h
  simp only [ids_doLoop, List.nodup_cons, List.nodup_append', List.mem_cons, List.mem_append, not_or,
    List.Disjoint] at hnodup hexit hout
  refine {
    apart := ⟨by grind, by grind, by grind⟩
    subset := by grind [ids_doLoop]
    entry_not_mem := by grind [Routine.entry]
    edges := fun e he => ?edges
    earlier_subset := by grind [ids_doLoop]
    earlier_not_mem := by grind
    closed := fun e he htarget => ?closed }
  case edges =>
    simp only [edges, List.mem_cons, List.mem_append] at he
    rcases he with rfl | rfl | rfl | he | he
    · grind [entry_mem]
    · grind
    · grind
    · grind [source_mem he, target_mem he]
    · exact .inl he
  case closed =>
    simp only [edges, List.mem_cons, List.mem_append] at he
    rcases he with rfl | rfl | rfl | he | he
    · simp
    · simp
    · simp
    · grind [source_mem he]
    · grind [target_mem he]

/-- The body of a loop that tests after it is entered from the block before it, and left for the test. -/
theorem part_doLoop (h : (doLoop entry test body next).Apart exit out) :
    Part (doLoop entry test body next) exit out body test.id (next.entry exit)
      (fun e => e.source = entry.id) := by
  obtain ⟨hnodup, hexit, hout⟩ := h
  simp only [ids_doLoop, List.nodup_cons, List.nodup_append', List.mem_cons, List.mem_append, not_or,
    List.Disjoint] at hnodup hexit hout
  refine {
    apart := ⟨by grind, by grind, by grind [entry_mem]⟩
    subset := by grind [ids_doLoop]
    entry_not_mem := by grind [Routine.entry]
    edges := fun e he => ?edges }
  simp only [edges, List.mem_cons, List.mem_append] at he
  rcases he with rfl | rfl | rfl | he | he
  · grind
  · grind
  · grind [entry_mem]
  · exact .inl he
  · grind [source_mem he, target_mem he]

end

/-! ### Routines in a chart -/

/-- A routine among the edges of a chart.  Its blocks have no other edges than its own, and it is entered from outside
at its first block, by certain edges. -/
structure Placed (E : List Edge) (r : Routine) (exit out : BlockId) (door : Edge → Prop) : Prop where
  apart : r.Apart exit out
  own : ∀ e ∈ E, e.source ∈ r.ids → e ∈ r.edges exit out
  enters : ∀ e ∈ E, e.target ∈ r.ids → e.source ∈ r.ids ∨ (door e ∧ e.target = r.entry exit)

/-- The parts of a routine that is placed in a chart are placed in it. -/
theorem Placed.part {E : List Edge} {r part : Routine} {exit out exit' out' : BlockId} {door door' : Edge → Prop}
    (h : Placed E r exit out door) (hpart : Part r exit out part exit' out' door') :
    Placed E part exit' out' door' where
  apart := hpart.apart
  own e he hsource := by
    rcases hpart.edges e (h.own e he (hpart.subset _ hsource)) with hin | ⟨hoff, -⟩
    · exact hin
    · exact absurd hsource hoff
  enters e he htarget := by
    rcases h.enters e he (hpart.subset _ htarget) with hsource | ⟨-, hentry⟩
    · rcases hpart.edges e (h.own e he hsource) with hin | ⟨-, hdoor⟩
      · exact .inl (source_mem hin)
      · exact .inr (hdoor htarget)
    · rw [hentry] at htarget
      exact absurd htarget hpart.entry_not_mem

end Routine

/-! ### The edges at a loop -/

/-- The edges at a loop that is tracked: its body is entered from the head, when the test succeeds, and that leads
nowhere else. -/
structure Heading.Fits (E : List Edge) (k : Heading) : Prop where
  head_not_mem : k.head ∉ k.body
  enters : ∀ e ∈ E, e.target ∈ k.body → e.source ∈ k.body ∨ (e.source = k.head ∧ e.branch = some .whenTrue)
  taken : ∀ e ∈ E, e.source = k.head → e.branch = some .whenTrue → e.target ∈ k.body ∨ e.target = k.head
  again : ∀ e ∈ E, e.source = k.head → e.target = k.head → e.branch = some .whenTrue

namespace Routine

variable {E : List Edge} {exit out : BlockId} {door : Edge → Prop}

/-- The edges at the head of a loop. -/
theorem Placed.edges_head {kind : Looping} {head : Node} {body next : Routine}
    (h : Placed E (loop kind head body next) exit out door) {e : Edge} (he : e ∈ E) (hsource : e.source = head.id) :
    (e.branch = some .whenTrue ∧ e.target = body.entry head.id) ∨
      (e.branch = some .whenFalse ∧ e.target = next.entry exit) := by
  have hbody : head.id ∉ body.ids := (part_loop h.apart).entry_not_mem
  have hnext : head.id ∉ next.ids := (sequel_loop h.apart).entry_not_mem
  have hin := h.own e he (by simp [hsource])
  simp only [edges, List.mem_cons, List.mem_append] at hin
  rcases hin with rfl | rfl | hin | hin
  · exact .inl ⟨rfl, rfl⟩
  · exact .inr ⟨rfl, rfl⟩
  · exact absurd (hsource ▸ source_mem hin) hbody
  · exact absurd (hsource ▸ source_mem hin) hnext

theorem Placed.fits_head {kind : Looping} {head : Node} {body next : Routine}
    (h : Placed E (loop kind head body next) exit out door) : Heading.Fits E ⟨head.id, kind, body.ids⟩ where
  head_not_mem := (part_loop h.apart).entry_not_mem
  enters e he htarget := ((h.part (part_loop h.apart)).enters e he htarget).imp_right And.left
  taken e he hsource hbranch := by
    rcases h.edges_head he hsource with ⟨-, htarget⟩ | ⟨hbranch', -⟩
    · rw [htarget]
      exact (body.entry_mem head.id).symm
    · rw [hbranch] at hbranch'
      cases hbranch'
  again e he hsource htarget := by
    rcases h.edges_head he hsource with ⟨hbranch, -⟩ | ⟨-, hafter⟩
    · exact hbranch
    · -- Where the loop leads when it is over is not its head.
      have hhead : head.id = next.entry exit := htarget.symm.trans hafter
      rcases next.entry_mem exit with hexit | hin
      · exact absurd (by simp [← hhead.trans hexit]) h.apart.exit_not_mem
      · rw [← hhead] at hin
        exact absurd hin (sequel_loop h.apart).entry_not_mem

/-- **The edges at the loops of a routine** are as they should be, by induction on the routine. -/
theorem Placed.fits {r : Routine} (h : Placed E r exit out door) : ∀ k ∈ r.headings, k.Fits E := by
  induction r generalizing exit out door with
  | done => exact fun k hk => absurd hk List.not_mem_nil
  | simple kind node next ih => exact ih (h.part (sequel_simple h.apart).toPart)
  | choice test join yes no next ihy ihn ih =>
    simp only [headings, List.forall_mem_append]
    exact ⟨⟨ihy (h.part (sequel_yes h.apart).toPart), ihn (h.part (sequel_no h.apart).toPart)⟩,
      ih (h.part (sequel_choice h.apart).toPart)⟩
  | loop kind head body next ihb ih =>
    simp only [headings, List.forall_mem_cons, List.forall_mem_append]
    exact ⟨h.fits_head, ihb (h.part (part_loop h.apart)), ih (h.part (sequel_loop h.apart).toPart)⟩
  | doLoop entry test body next ihb ih =>
    simp only [headings, List.forall_mem_append]
    exact ⟨ihb (h.part (part_doLoop h.apart)), ih (h.part (sequel_doLoop h.apart).toPart)⟩
  | leave test next ih => exact ih (h.part (sequel_leave h.apart).toPart)

end Routine

/-! ### Zones -/

/-- A zone around the head of a loop and outside of its body.  It is entered from the heads of loops around the loop,
and back to the head of the loop itself. -/
structure Heading.Guard (E : List Edge) (H : List Heading) (k : Heading) (zone : BlockId → Prop) : Prop where
  head : zone k.head
  not_mem : ∀ i, zone i → i ∉ k.body
  led : ∀ e ∈ E, zone e.target → zone e.source ∨ (∃ j ∈ H, j.head = e.source ∧ k.head ∈ j.body) ∨
    (e.target = k.head ∧ (e.source ∈ k.body ∨ e.source = k.head))

namespace Routine

variable {E : List Edge} {H : List Heading} {exit out : BlockId} {door : Edge → Prop}

/-- The block is the head of a loop around the routine. -/
def Around (H : List Heading) (r : Routine) (i : BlockId) : Prop := ∃ j ∈ H, j.head = i ∧ ∀ x ∈ r.ids, x ∈ j.body

/-- What comes before a routine: control is led there, and to the routine, from there and from the heads of loops
around the routine. -/
structure Sealed (E : List Edge) (H : List Heading) (r : Routine) (door : Edge → Prop) (before : BlockId → Prop) :
    Prop where
  led : ∀ e ∈ E, before e.target → before e.source ∨ Around H r e.source
  doors : ∀ e, door e → before e.source ∨ Around H r e.source
  not_mem : ∀ i ∈ r.ids, ¬before i

/-- For a part that comes after other blocks, these come before it as well. -/
theorem Sealed.sequel {before : BlockId → Prop} {r part : Routine} {exit' out' : BlockId} {earlier : List BlockId}
    (h : Sealed E H r door before) (hplaced : Placed E r exit out door)
    (hpart : Sequel r exit out part exit' out' earlier) :
    Sealed E H part (fun e => e.source ∈ earlier) (fun i => before i ∨ i ∈ earlier) := by
  have haround : ∀ {i}, Around H r i → Around H part i := fun ⟨j, hj, hhead, hall⟩ =>
    ⟨j, hj, hhead, fun x hx => hall x (hpart.subset x hx)⟩
  refine ⟨fun e he htarget => ?_, fun e hdoor => .inl (.inr hdoor), fun i hi hbefore => ?_⟩
  · rcases htarget with htarget | htarget
    · exact (h.led e he htarget).imp .inl haround
    · rcases hplaced.enters e he (hpart.earlier_subset _ htarget) with hsource | ⟨hdoor, -⟩
      · exact .inl (.inr (hpart.closed e (hplaced.own e he hsource) htarget))
      · exact (h.doors e hdoor).imp .inl haround
  · rcases hbefore with hbefore | hearlier
    · exact h.not_mem i (hpart.subset i hi) hbefore
    · exact hpart.earlier_not_mem i hearlier hi

/-- What comes before a later part is known if it is known for the whole, where it matters. -/
theorem Placed.sealed_later {r part : Routine} {exit' out' : BlockId} {earlier : List BlockId}
    (h : Placed E r exit out door) (hpart : Sequel r exit out part exit' out' earlier)
    (hsealed : r.leavesCounting = true → ∃ before, Sealed E H r door before)
    (hup : part.leavesCounting = true → r.leavesCounting = true) (hleaves : part.leavesCounting = true) :
    ∃ before, Sealed E H part (fun e => e.source ∈ earlier) before := by
  obtain ⟨before, hbefore⟩ := hsealed (hup hleaves)
  exact ⟨_, hbefore.sequel h hpart⟩

/-- Nothing but the head comes before the body of a loop that is tracked. -/
theorem sealed_body {k : Heading} {body : Routine} (hk : k ∈ H) (hbody : k.body = body.ids) :
    Sealed E H body (fun e => e.source = k.head ∧ e.branch = some .whenTrue) (fun _ => False) where
  led _ _ h := h.elim
  doors _ hdoor := .inr ⟨k, hk, hdoor.1.symm, fun _ hx => hbody ▸ hx⟩
  not_mem _ _ h := h

section
variable {kind : Looping} {head : Node} {body next : Routine}

/-- A loop without a way out is left by its test only, so everything but its body is a zone. -/
theorem Placed.guard_of_not_leaves (h : Placed E (loop kind head body next) exit out door)
    (hleaves : body.leaves = false) : Heading.Guard E H ⟨head.id, kind, body.ids⟩ (· ∉ body.ids) where
  head := h.fits_head.head_not_mem
  not_mem _ hi := hi
  led e he htarget := by
    by_cases hsource : e.source ∈ body.ids
    · rcases target_mem ((h.part (part_loop h.apart)).own e he hsource) with hin | hhead | ⟨hout, -⟩
      · exact absurd hin htarget
      · exact .inr (.inr ⟨hhead, .inl hsource⟩)
      · rw [hleaves] at hout
        cases hout
    · exact .inl hsource

/-- Where the loop is sealed off, its head and what comes before it are a zone, even if there is a way out. -/
theorem Placed.guard_of_sealed {before : BlockId → Prop} (h : Placed E (loop kind head body next) exit out door)
    (hsealed : Sealed E H (loop kind head body next) door before) :
    Heading.Guard E H ⟨head.id, kind, body.ids⟩ (fun i => i = head.id ∨ before i) := by
  have hhead : head.id ∈ (loop kind head body next).ids := by simp
  have hled : ∀ {i}, before i ∨ Around H (loop kind head body next) i →
      (i = head.id ∨ before i) ∨ ∃ j ∈ H, j.head = i ∧ head.id ∈ j.body := fun hi =>
    hi.imp .inr fun ⟨j, hj, hjhead, hall⟩ => ⟨j, hj, hjhead, hall _ hhead⟩
  refine ⟨.inl rfl, fun i hi hbody => ?_, fun e he htarget => ?_⟩
  · rcases hi with rfl | hbefore
    · exact h.fits_head.head_not_mem hbody
    · exact hsealed.not_mem i ((part_loop h.apart).subset i hbody) hbefore
  · rcases htarget with htarget | hbefore
    · rcases h.enters e he (htarget ▸ hhead) with hsource | ⟨hdoor, -⟩
      · -- The edges of the routine that lead to the head begin at the head or in the body.
        have hearlier := (sequel_loop h.apart).closed e (h.own e he hsource) (by simp [htarget])
        exact .inr (.inr ⟨htarget, (List.mem_cons.mp hearlier).symm⟩)
      · exact (hled (hsealed.doors e hdoor)).imp_right .inl
    · exact (hled (hsealed.led e he hbefore)).imp_right .inl

end

/-- **Every counting loop of a tidy routine has a zone**, by induction on the routine.  Only where a counting loop with
a way out may stand outside of all loops of a part does it matter what comes before the part. -/
theorem Placed.guards {r : Routine} (h : Placed E r exit out door) (htidy : r.tidy = true)
    (hH : ∀ k ∈ r.headings, k ∈ H) (hsealed : r.leavesCounting = true → ∃ before, Sealed E H r door before) :
    ∀ k ∈ r.headings, k.kind = .counting → ∃ zone, k.Guard E H zone := by
  induction r generalizing exit out door with
  | done => exact fun k hk => absurd hk List.not_mem_nil
  | simple kind node next ih =>
    have hpart := sequel_simple h.apart
    exact ih (h.part hpart.toPart) htidy hH (h.sealed_later hpart hsealed id)
  | choice test join yes no next ihy ihn ih =>
    simp only [tidy, Bool.and_eq_true] at htidy
    simp only [headings, List.forall_mem_append] at hH ⊢
    have hyes := sequel_yes h.apart
    have hno := sequel_no h.apart
    have hnext := sequel_choice h.apart
    refine ⟨⟨?_, ?_⟩, ?_⟩
    · exact ihy (h.part hyes.toPart) htidy.1.1 hH.1.1
        (h.sealed_later hyes hsealed fun hl => by simp [leavesCounting, hl])
    · exact ihn (h.part hno.toPart) htidy.1.2 hH.1.2
        (h.sealed_later hno hsealed fun hl => by simp [leavesCounting, hl])
    · exact ih (h.part hnext.toPart) htidy.2 hH.2
        (h.sealed_later hnext hsealed fun hl => by simp [leavesCounting, hl])
  | loop kind head body next ihb ih =>
    simp only [tidy, Bool.and_eq_true] at htidy
    simp only [headings, List.forall_mem_cons, List.forall_mem_append] at hH ⊢
    have hnext := sequel_loop h.apart
    refine ⟨fun hkind => ?_, ?_, ?_⟩
    · cases hleaves : body.leaves with
      | false => exact ⟨_, h.guard_of_not_leaves hleaves⟩
      | true =>
        have hcounting : kind = .counting := hkind
        obtain ⟨before, hbefore⟩ := hsealed (by simp [leavesCounting, hcounting, hleaves])
        exact ⟨_, h.guard_of_sealed hbefore⟩
    · exact ihb (h.part (part_loop h.apart)) htidy.1 hH.2.1 fun _ => ⟨_, sealed_body hH.1 rfl⟩
    · exact ih (h.part hnext.toPart) htidy.2 hH.2.2
        (h.sealed_later hnext hsealed fun hl => by simp [leavesCounting, hl])
  | doLoop entry test body next ihb ih =>
    simp only [tidy, Bool.and_eq_true, Bool.not_eq_true'] at htidy
    simp only [headings, List.forall_mem_append] at hH ⊢
    have hnext := sequel_doLoop h.apart
    refine ⟨?_, ?_⟩
    · refine ihb (h.part (part_doLoop h.apart)) htidy.1.2 hH.1 fun hl => ?_
      rw [htidy.1.1] at hl
      cases hl
    · exact ih (h.part hnext.toPart) htidy.2 hH.2 (h.sealed_later hnext hsealed id)
  | leave test next ih =>
    have hpart := sequel_leave h.apart
    exact ih (h.part hpart.toPart) htidy hH (h.sealed_later hpart hsealed id)

end Routine

/-! ### Sketches -/

namespace Sketch

variable (s : Sketch)

/-- The routine of a sketch is entered from the start block. -/
theorem placed : s.routine.Placed s.edges s.finish.id s.finish.id (fun e => e.source = s.start.id) := by
  have hnodup := s.nodup
  simp only [List.nodup_cons, List.mem_cons, not_or] at hnodup
  obtain ⟨⟨-, hstart⟩, hfinish, hroutine⟩ := hnodup
  refine ⟨⟨hroutine, hfinish, hfinish⟩, fun e he hsource => ?_, fun e he htarget => ?_⟩
  all_goals
    rcases List.mem_cons.mp he with rfl | he
  · exact absurd hsource hstart
  · exact he
  · exact .inr ⟨rfl, rfl⟩
  · exact .inl (Routine.source_mem he)

/-- No edge leads back to the start block. -/
theorem sealed_start : s.routine.Sealed s.edges s.headings (fun e => e.source = s.start.id) (· = s.start.id) := by
  have hnodup := s.nodup
  simp only [List.nodup_cons, List.mem_cons, not_or] at hnodup
  obtain ⟨⟨hne, hstart⟩, -⟩ := hnodup
  refine ⟨fun e he htarget => ?_, fun e hdoor => .inl hdoor, fun i hi hbefore => hstart (hbefore ▸ hi)⟩
  rcases List.mem_cons.mp he with rfl | he
  · exact .inl rfl
  · rcases Routine.target_mem he with hin | hfinish | ⟨-, hfinish⟩
    · exact absurd (htarget ▸ hin) hstart
    · exact absurd (htarget.symm.trans hfinish) hne
    · exact absurd (htarget.symm.trans hfinish) hne

theorem fits : ∀ k ∈ s.headings, k.Fits s.edges := s.placed.fits

/-- **Every counting loop of a tidy sketch has a zone.** -/
theorem guards (htidy : s.routine.tidy = true) :
    ∀ k ∈ s.headings, k.kind = .counting → ∃ zone, k.Guard s.edges s.headings zone :=
  s.placed.guards htidy (fun _ hk => hk) fun _ => ⟨_, s.sealed_start⟩

end Sketch

end Flowchart
