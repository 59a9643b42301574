import Flowchart.Machine.Basic
import Flowchart.Proofs.Routine.Headings

/-!
# The loops that are being executed

While a chart is executed, the loops that were entered are kept, the innermost one first.  The list alone does not tell
whether control is in the body of a loop: after a way out the loop is still there.  Here it is shown what the list does
tell, edge by edge.

* `exists_outside` — what tracking a loop leaves: the loops outside of it, and the loop itself if its body is entered.
* `Moves` — what an edge does to the list: at the head of a loop that is tracked the test is noted.
* `Heading.Continues` — control comes back from the body of a loop.
* `Tracks` — the invariant: which loops are in the list, and in which order, when control has come along an edge to a
  block.  **`Tracks.step`** carries it along one more edge.
* **`Tracks.mem_iff`** — at its head, a loop with a zone is in the list just in case control comes back from its body.
-/

namespace Flowchart

/-! ### Tracking a loop -/

/-- **Tracking a loop** leaves the loops outside of it, and the loop in front of them if its body is entered. -/
theorem exists_outside (id : BlockId) {loops : List BlockId} (h : loops.Nodup) :
    ∃ outside, outside <:+ loops ∧ id ∉ outside ∧ (id ∈ loops → (id :: outside) <:+ loops) ∧
      (id ∉ loops → outside = loops) ∧
      ∀ outcome, trackLoop id outcome loops = if outcome then id :: outside else outside := by
  by_cases hid : id ∈ loops
  · obtain ⟨inside, outside, rfl⟩ := List.append_of_mem hid
    have hinside : id ∉ inside := fun hin => (List.nodup_append'.mp h).2.2 hin List.mem_cons_self
    have houtside : id ∉ outside := (List.nodup_cons.mp (List.nodup_append'.mp h).2.1).1
    have hkeep : ∀ a ∈ inside, (a != id) = true := fun a ha => bne_iff_ne.mpr fun heq => hinside (heq ▸ ha)
    have hdrop : (inside ++ id :: outside).dropWhile (· != id) = id :: outside := by
      rw [List.dropWhile_append_of_pos hkeep, List.dropWhile_cons_of_neg (by simp)]
    have hsuffix : (id :: outside) <:+ inside ++ id :: outside := List.suffix_append _ _
    refine ⟨outside, (List.suffix_cons id outside).trans hsuffix, houtside, fun _ => hsuffix, fun hno => absurd hid hno,
      fun outcome => ?_⟩
    unfold trackLoop
    rw [List.contains_iff_mem.mpr hid, hdrop]
    cases outcome <;> rfl
  · refine ⟨loops, List.suffix_refl _, hid, fun hin => absurd hin hid, fun _ => rfl, fun outcome => ?_⟩
    unfold trackLoop
    rw [Bool.eq_false_iff.mpr fun hcontains => hid (List.contains_iff_mem.mp hcontains)]
    cases outcome <;> rfl

/-- What the loops become along an edge: at the head of a loop that is tracked, the outcome of its test is noted. -/
inductive Moves (H : List Heading) (e : Edge) : List BlockId → List BlockId → Prop where
  | past {loops : List BlockId} (h : ∀ k ∈ H, k.head ≠ e.source) : Moves H e loops loops
  | tested {k : Heading} {loops : List BlockId} {outcome : Bool} (hk : k ∈ H) (hhead : k.head = e.source)
      (hbranch : e.branch = some (Branch.ofBool outcome)) : Moves H e loops (trackLoop e.source outcome loops)

/-- Control comes back from the body of the loop; if the body is empty, from its head. -/
def Heading.Continues (k : Heading) (source : Option BlockId) : Prop := ∃ a ∈ source, a ∈ k.body ∨ a = k.head

instance (k : Heading) (source : Option BlockId) : Decidable (k.Continues source) :=
  match source with
  | none => isFalse fun ⟨_, ha, _⟩ => Option.not_mem_none _ ha
  | some a => decidable_of_iff (a ∈ k.body ∨ a = k.head) ⟨fun h => ⟨a, rfl, h⟩, fun ⟨_, ha, h⟩ => by cases ha; exact h⟩

/-! ### The invariant -/

/-- What the loops tell when control has come from a block, if from any, to the block `b`. -/
structure Tracks (E : List Edge) (H : List Heading) (source : Option BlockId) (b : BlockId) (loops : List BlockId) :
    Prop where
  nodup : loops.Nodup
  /-- In the body of a loop, the loop is being executed. -/
  inside : ∀ k ∈ H, b ∈ k.body → k.head ∈ loops
  /-- Loops around a loop are further out in the list. -/
  nested : ∀ k ∈ H, ∀ j ∈ H, j.head ∈ k.body → ∀ outside, (j.head :: outside) <:+ loops → k.head ∈ outside
  /-- In its zone a loop is not being executed, unless control comes back to its head. -/
  ended : ∀ k ∈ H, ∀ zone, k.Guard E H zone → k.head ∈ loops → zone b → b = k.head ∧ k.Continues source
  /-- When control comes back to its head, the loop is being executed. -/
  back : ∀ k ∈ H, b = k.head → k.Continues source → k.head ∈ loops

namespace Tracks

variable {E : List Edge} {H : List Heading} {source : Option BlockId} {b : BlockId} {loops loops' : List BlockId}
  {e : Edge} {k : Heading}

/-- At the beginning no loop is being executed. -/
theorem start (hb : ∀ k ∈ H, b ∉ k.body) : Tracks E H none b [] where
  nodup := List.nodup_nil
  inside k hk hin := absurd hin (hb k hk)
  nested _ _ _ _ _ outside hsuffix := by simp at hsuffix
  ended _ _ _ _ hmem _ := absurd hmem List.not_mem_nil
  back _ _ _ hcontinues := by
    obtain ⟨_, ha, -⟩ := hcontinues
    cases ha

/-- **At its head**, a loop with a zone is being executed just in case control comes back from its body. -/
theorem mem_iff {zone : BlockId → Prop} (h : Tracks E H source k.head loops) (hk : k ∈ H) (hzone : k.Guard E H zone) :
    k.head ∈ loops ↔ k.Continues source :=
  ⟨fun hmem => (h.ended k hk zone hzone hmem hzone.head).2, h.back k hk rfl⟩

/-- A loop that is being executed is outside of the loops in its body. -/
theorem mem_outside (h : Tracks E H source b loops) {j : Heading} (hk : k ∈ H) (hj : j ∈ H)
    (hin : j.head ∈ k.body) (hmem : k.head ∈ loops) {outside : List BlockId}
    (hall : j.head ∈ loops → (j.head :: outside) <:+ loops) (hnone : j.head ∉ loops → outside = loops) :
    k.head ∈ outside := by
  by_cases hhead : j.head ∈ loops
  · exact h.nested k hk j hj hin outside (hall hhead)
  · rw [hnone hhead]
    exact hmem

/-- From a block of its body on, a loop is still being executed. -/
theorem inside_of_moves (h : Tracks E H source e.source loops) (hmoves : Moves H e loops loops') (hk : k ∈ H)
    (hin : e.source ∈ k.body) : k.head ∈ loops' := by
  have hmem := h.inside k hk hin
  cases hmoves with
  | past _ => exact hmem
  | @tested j _ outcome hj hhead _ =>
    obtain ⟨outside, -, -, hall, hnone, htrack⟩ := exists_outside e.source h.nodup
    rw [← hhead] at hin hall hnone
    have houtside := h.mem_outside hk hj hin hmem hall hnone
    rw [htrack]
    cases outcome with
    | true => exact List.mem_cons_of_mem _ houtside
    | false => exact houtside

/-- At its head a loop is being executed afterwards just in case the test succeeded. -/
theorem head_of_moves (h : Tracks E H source e.source loops) (hmoves : Moves H e loops loops') (hk : k ∈ H)
    (hhead : e.source = k.head) : k.head ∈ loops' ↔ e.branch = some .whenTrue := by
  cases hmoves with
  | past hno => exact absurd hhead.symm (hno k hk)
  | @tested j _ outcome _ _ hbranch =>
    obtain ⟨outside, -, hnot, -, -, htrack⟩ := exists_outside e.source h.nodup
    rw [htrack, hbranch, ← hhead]
    cases outcome with
    | true => simp [Branch.ofBool]
    | false => simpa [Branch.ofBool] using hnot

/-- A loop that is being executed afterwards was so before, unless control is at its head. -/
theorem mem_of_moves (h : Tracks E H source e.source loops) (hmoves : Moves H e loops loops')
    (hne : e.source ≠ k.head) (hmem : k.head ∈ loops') : k.head ∈ loops := by
  cases hmoves with
  | past _ => exact hmem
  | @tested j _ outcome _ _ _ =>
    obtain ⟨outside, hsuffix, -, -, -, htrack⟩ := exists_outside e.source h.nodup
    rw [htrack] at hmem
    cases outcome with
    | true =>
      rcases List.mem_cons.mp hmem with heq | hmem
      · exact absurd heq.symm hne
      · exact hsuffix.subset hmem
    | false => exact hsuffix.subset hmem

/-- From the head of a loop on, no loop in its body is being executed. -/
theorem not_mem_of_moves (h : Tracks E H source e.source loops) (hmoves : Moves H e loops loops') (hk : k ∈ H)
    {j : Heading} (hj : j ∈ H) (hfits : j.Fits E) (hhead : j.head = e.source) (hin : k.head ∈ j.body) :
    k.head ∉ loops' := by
  intro hmem
  cases hmoves with
  | past hno => exact hno j hj hhead
  | @tested _ _ outcome _ _ _ =>
    obtain ⟨outside, hsuffix, hnot, -, -, htrack⟩ := exists_outside e.source h.nodup
    have hne : k.head ≠ e.source := fun heq => hfits.head_not_mem (by rwa [hhead, ← heq])
    have hmem : k.head ∈ outside := by
      rw [htrack] at hmem
      cases outcome with
      | true => exact (List.mem_cons.mp hmem).resolve_left hne
      | false => exact hmem
    obtain ⟨inner, outer, hsplit⟩ := List.append_of_mem hmem
    have hsuffix' : (k.head :: outer) <:+ outside := ⟨inner, hsplit.symm⟩
    have hout := h.nested j hj k hk hin outer (hsuffix'.trans hsuffix)
    rw [hhead] at hout
    exact hnot (hsuffix'.subset (List.mem_cons_of_mem _ hout))

/-- The order of the loops is kept. -/
theorem nested_of_moves (h : Tracks E H source e.source loops) (hmoves : Moves H e loops loops') :
    ∀ k ∈ H, ∀ j ∈ H, j.head ∈ k.body → ∀ outside, (j.head :: outside) <:+ loops' → k.head ∈ outside := by
  intro k hk j hj hin outer hsuffix
  cases hmoves with
  | past _ => exact h.nested k hk j hj hin outer hsuffix
  | @tested _ _ outcome _ _ _ =>
    obtain ⟨outside, houtside, -, hall, hnone, htrack⟩ := exists_outside e.source h.nodup
    rw [htrack] at hsuffix
    cases outcome with
    | true =>
      rcases List.suffix_cons_iff.mp hsuffix with heq | hsuffix
      · -- The loop whose body is entered now is the one in question.
        obtain ⟨hhead, rfl⟩ := List.cons.inj heq
        rw [hhead] at hin
        rw [← hhead] at hin hall hnone
        exact h.mem_outside hk hj hin (h.inside k hk (hhead ▸ hin)) hall hnone
      · exact h.nested k hk j hj hin outer (hsuffix.trans houtside)
    | false => exact h.nested k hk j hj hin outer (hsuffix.trans houtside)

/-- **One edge.**  What the loops tell at a block they tell at the next one. -/
theorem step (hfits : ∀ k ∈ H, k.Fits E) (h : Tracks E H source e.source loops) (he : e ∈ E)
    (hmoves : Moves H e loops loops') : Tracks E H (some e.source) e.target loops' where
  nodup := by
    cases hmoves with
    | past _ => exact h.nodup
    | tested _ _ _ => exact nodup_trackLoop _ _ h.nodup
  inside k hk hin := by
    rcases (hfits k hk).enters e he hin with hsource | ⟨hhead, hbranch⟩
    · exact h.inside_of_moves hmoves hk hsource
    · exact (h.head_of_moves hmoves hk hhead).mpr hbranch
  nested := h.nested_of_moves hmoves
  ended k hk zone hzone hmem htarget := by
    rcases hzone.led e he htarget with hsource | ⟨j, hj, hhead, hin⟩ | ⟨htarget, hback⟩
    · -- In the zone only the head leaves the loop being executed, and then the body is entered.
      have hhead : e.source = k.head := by
        by_contra hne
        exact hne (h.ended k hk zone hzone (h.mem_of_moves hmoves hne hmem) hsource).1
      have hbranch := (h.head_of_moves hmoves hk hhead).mp hmem
      rcases (hfits k hk).taken e he hhead hbranch with hin | htarget'
      · exact absurd hin (hzone.not_mem _ htarget)
      · exact ⟨htarget', e.source, rfl, .inr hhead⟩
    · exact absurd hmem (h.not_mem_of_moves hmoves hk hj (hfits j hj) hhead hin)
    · exact ⟨htarget, e.source, rfl, hback⟩
  back k hk htarget hcontinues := by
    obtain ⟨_, ha, hback⟩ := hcontinues
    cases ha
    rcases hback with hin | hhead
    · exact h.inside_of_moves hmoves hk hin
    · exact (h.head_of_moves hmoves hk hhead).mpr ((hfits k hk).again e he hhead htarget)

end Tracks

end Flowchart
