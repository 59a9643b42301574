import Flowchart.Code.Recovery
import Flowchart.Proofs.Script.Layout

/-!
# The loops that test after their bodies

In a chart, a loop that tests after its body is known by its test alone; where the body begins is found by
following the edge of the test back.  For a chart that shows a script the loops found are those of the script.

* `Script.tests` — the entries of the bodies in a script, with the tests.
* `Recovery.testAt?` — the test of the loop that begins at a block.
* `Script.Tested` — at every block of a script, the loop that begins there is the one that the script calls for,
  if any.  **`Graph.Shows.tested`** says that it is so in a chart that shows an outline.
-/

namespace Flowchart

namespace Script

/-- The entries of the bodies that are tested afterwards, with the tests. -/
def tests : Script → List (BlockId × BlockId)
  | done => []
  | simple _ _ next => next.tests
  | choice _ _ yes no next => yes.tests ++ no.tests ++ next.tests
  | loop _ _ body next => body.tests ++ next.tests
  | doLoop entry test body next => (entry.id, test.id) :: (body.tests ++ next.tests)

/-- The entries are blocks of the script, in the same order. -/
theorem entries_sublist (s : Script) : (s.tests.map Prod.fst).Sublist s.ids := by
  induction s with
  | done => exact List.Sublist.slnil
  | simple kind node next ih => exact ih.cons node.id
  | choice test join yes no next ihy ihn ih =>
    rw [ids_choice, tests, List.map_append, List.map_append]
    exact (((ihy.append ihn).append ih).cons join.id).cons test.id
  | loop kind head body next ihb ih =>
    rw [ids_loop, tests, List.map_append]
    exact (ihb.append ih).cons head.id
  | doLoop entry test body next ihb ih =>
    rw [ids_doLoop, tests, List.map_cons, List.map_append]
    exact ((ihb.append ih).cons test.id).cons_cons entry.id

theorem entry_mem_ids {id test : BlockId} {s : Script} (h : (id, test) ∈ s.tests) : id ∈ s.ids :=
  s.entries_sublist.subset (List.mem_map_of_mem h)

/-- Every test at the end of a loop has an entry. -/
theorem exists_entry {b : Block} {s : Script} (h : b ∈ s.blocks) (hkind : b.kind = .doWhile) :
    ∃ entry, (entry, b.id) ∈ s.tests := by
  induction s with
  | done => cases h
  | simple kind node next ih =>
    rcases List.mem_cons.mp h with rfl | h
    · cases kind <;> cases hkind
    · exact ih h
  | choice test join yes no next ihy ihn ih =>
    simp only [blocks, tests, List.mem_cons, List.mem_append] at h ⊢
    rcases h with rfl | rfl | (h | h) | h
    · cases hkind
    · cases hkind
    · obtain ⟨e, he⟩ := ihy h
      exact ⟨e, .inl (.inl he)⟩
    · obtain ⟨e, he⟩ := ihn h
      exact ⟨e, .inl (.inr he)⟩
    · obtain ⟨e, he⟩ := ih h
      exact ⟨e, .inr he⟩
  | loop kind head body next ihb ih =>
    simp only [blocks, tests, List.mem_cons, List.mem_append] at h ⊢
    rcases h with rfl | h | h
    · cases kind <;> cases hkind
    · obtain ⟨e, he⟩ := ihb h
      exact ⟨e, .inl he⟩
    · obtain ⟨e, he⟩ := ih h
      exact ⟨e, .inr he⟩
  | doLoop entry test body next ihb ih =>
    simp only [blocks, tests, List.mem_cons, List.mem_append] at h ⊢
    rcases h with rfl | rfl | h | h
    · cases hkind
    · exact ⟨entry.id, .inl rfl⟩
    · obtain ⟨e, he⟩ := ihb h
      exact ⟨e, .inr (.inl he)⟩
    · obtain ⟨e, he⟩ := ih h
      exact ⟨e, .inr (.inr he)⟩

/-- The body of a loop that is laid out begins where its test leads. -/
theorem bodyEntry?_of_laid {g : Graph} {exit entry test : BlockId} {s : Script} (h : Laid g exit s)
    (hs : s.ids.Nodup) (hmem : (entry, test) ∈ s.tests) :
    g.bodyEntry? test = some entry ∧ ∃ b ∈ s.blocks, b.id = test ∧ b.kind = .doWhile := by
  induction h with
  | done => cases hmem
  | simple _ _ _ ih =>
    rw [ids_simple] at hs
    obtain ⟨hentry, b, hb, hid⟩ := ih (List.nodup_cons.mp hs).2 hmem
    exact ⟨hentry, b, List.mem_cons_of_mem _ hb, hid⟩
  | choice _ _ _ _ _ _ _ ihy ihn ih =>
    have hs := distinctChoice_of_nodup hs
    simp only [tests, List.mem_append] at hmem
    simp only [blocks, List.mem_cons, List.mem_append]
    rcases hmem with (hmem | hmem) | hmem
    · obtain ⟨hentry, b, hb, hid⟩ := ihy hs.nodup_yes hmem
      exact ⟨hentry, b, .inr (.inr (.inl (.inl hb))), hid⟩
    · obtain ⟨hentry, b, hb, hid⟩ := ihn hs.nodup_no hmem
      exact ⟨hentry, b, .inr (.inr (.inl (.inr hb))), hid⟩
    · obtain ⟨hentry, b, hb, hid⟩ := ih hs.nodup_next hmem
      exact ⟨hentry, b, .inr (.inr (.inr hb)), hid⟩
  | loop _ _ _ _ ihb ih =>
    have hs := distinctLoop_of_nodup hs
    simp only [tests, List.mem_append] at hmem
    simp only [blocks, List.mem_cons, List.mem_append]
    rcases hmem with hmem | hmem
    · obtain ⟨hentry, b, hb, hid⟩ := ihb hs.nodup_body hmem
      exact ⟨hentry, b, .inr (.inl hb), hid⟩
    · obtain ⟨hentry, b, hb, hid⟩ := ih hs.nodup_next hmem
      exact ⟨hentry, b, .inr (.inr hb), hid⟩
  | @doLoop exit e t body next _ htest _ hforks _ _ ihb ih =>
    have hs := distinctDoLoop_of_nodup hs
    simp only [tests, List.mem_cons, List.mem_append] at hmem
    simp only [blocks, List.mem_cons, List.mem_append]
    rcases hmem with heq | hmem | hmem
    · obtain ⟨rfl, rfl⟩ := Prod.mk.inj heq
      refine ⟨?_, t.block .doWhile, .inr (.inl rfl), rfl, rfl⟩
      unfold Graph.bodyEntry?
      rw [hforks.whenTrue, Option.filter_some, if_pos (by simpa using hs.entry_test)]
    · obtain ⟨hentry, b, hb, hid⟩ := ihb hs.nodup_body hmem
      exact ⟨hentry, b, .inr (.inr (.inl hb)), hid⟩
    · obtain ⟨hentry, b, hb, hid⟩ := ih hs.nodup_next hmem
      exact ⟨hentry, b, .inr (.inr (.inr hb)), hid⟩

end Script

/-- The test of the loop whose body begins at a block. -/
def Recovery.testAt? (r : Recovery) (id : BlockId) : Option BlockId :=
  (r.doLoops.reverse.find? (·.1 == id)).map Prod.snd

/-- Where two pairs have different first parts, look-up finds the pair. -/
theorem Recovery.testAt?_eq_some_iff {r : Recovery} {pairs : List (BlockId × BlockId)}
    (hnodup : (pairs.map Prod.fst).Nodup) (hmem : ∀ pair, pair ∈ r.doLoops ↔ pair ∈ pairs) (id test : BlockId) :
    r.testAt? id = some test ↔ (id, test) ∈ pairs := by
  unfold Recovery.testAt?
  constructor
  · intro h
    obtain ⟨pair, hfind, rfl⟩ := Option.map_eq_some_iff.mp h
    have hid : pair.1 = id := by simpa using List.find?_some hfind
    rw [← hid]
    exact (hmem pair).mp (List.mem_reverse.mp (List.mem_of_find?_eq_some hfind))
  · intro h
    have hin : (id, test) ∈ r.doLoops.reverse := List.mem_reverse.mpr ((hmem _).mpr h)
    cases hfind : r.doLoops.reverse.find? (·.1 == id) with
    | none =>
      have hno := List.find?_eq_none.mp hfind _ hin
      simp at hno
    | some pair =>
      have hid : pair.1 = id := by simpa using List.find?_some hfind
      have hpair : pair ∈ pairs := (hmem pair).mp (List.mem_reverse.mp (List.mem_of_find?_eq_some hfind))
      rw [List.inj_on_of_nodup_map hnodup hpair h hid]
      rfl

namespace Script

/-- At every block of a script begins the loop that the script calls for, if any. -/
inductive Tested (r : Recovery) : Script → Prop where
  | done : Tested r done
  | simple {kind : Simple} {node : Node} {next : Script} (hnode : r.testAt? node.id = none)
      (hnext : Tested r next) : Tested r (simple kind node next)
  | choice {test join : Node} {yes no next : Script} (htest : r.testAt? test.id = none)
      (hjoin : r.testAt? join.id = none) (hyes : Tested r yes) (hno : Tested r no) (hnext : Tested r next) :
      Tested r (choice test join yes no next)
  | loop {kind : Looping} {head : Node} {body next : Script} (hhead : r.testAt? head.id = none)
      (hbody : Tested r body) (hnext : Tested r next) : Tested r (loop kind head body next)
  | doLoop {entry test : Node} {body next : Script} (hentry : r.testAt? entry.id = some test.id)
      (htest : r.testAt? test.id = none) (hbody : Tested r body) (hnext : Tested r next) :
      Tested r (doLoop entry test body next)

theorem not_mem_tests {id test : BlockId} {s : Script} (h : id ∉ s.ids) : (id, test) ∉ s.tests :=
  fun hmem => h (entry_mem_ids hmem)

/-- Where the loops that begin at the blocks of a script are the ones that it lists, it is tested as it says.  A
part of the script lists the loops at its own blocks, because the other parts have none of these blocks. -/
theorem tested_of_tests {r : Recovery} {s : Script} (hs : s.ids.Nodup)
    (h : ∀ id ∈ s.ids, ∀ test, r.testAt? id = some test ↔ (id, test) ∈ s.tests) : Tested r s := by
  have hnone : ∀ {id : BlockId}, (∀ test, ¬r.testAt? id = some test) → r.testAt? id = none :=
    Option.eq_none_iff_forall_ne_some.mpr
  induction s with
  | done => exact .done
  | simple kind node next ih =>
    rw [ids_simple] at hs h
    obtain ⟨hnode, hnext⟩ := List.nodup_cons.mp hs
    refine .simple (hnone fun t => ?_) (ih hnext fun id hid t => ?_)
    · rw [h node.id List.mem_cons_self]
      exact not_mem_tests (s := next) hnode
    · exact h id (List.mem_cons_of_mem _ hid) t
  | choice test join yes no next ihy ihn ih =>
    rw [ids_choice] at h
    have hs := distinctChoice_of_nodup hs
    refine .choice (hnone fun t => ?_) (hnone fun t => ?_) (ihy hs.nodup_yes fun id hid t => ?_)
      (ihn hs.nodup_no fun id hid t => ?_) (ih hs.nodup_next fun id hid t => ?_)
    · rw [h test.id (by simp)]
      simp [tests, not_mem_tests hs.test_yes, not_mem_tests hs.test_no, not_mem_tests hs.test_next]
    · rw [h join.id (by simp)]
      simp [tests, not_mem_tests hs.join_yes, not_mem_tests hs.join_no, not_mem_tests hs.join_next]
    · rw [h id (by simp [hid])]
      simp [tests, not_mem_tests (hs.yes_no hid), not_mem_tests (hs.yes_next hid)]
    · rw [h id (by simp [hid])]
      simp [tests, not_mem_tests fun hy => hs.yes_no hy hid, not_mem_tests (hs.no_next hid)]
    · rw [h id (by simp [hid])]
      simp [tests, not_mem_tests fun hy => hs.yes_next hy hid, not_mem_tests fun hn => hs.no_next hn hid]
  | loop kind head body next ihb ih =>
    rw [ids_loop] at h
    have hs := distinctLoop_of_nodup hs
    refine .loop (hnone fun t => ?_) (ihb hs.nodup_body fun id hid t => ?_) (ih hs.nodup_next fun id hid t => ?_)
    · rw [h head.id List.mem_cons_self]
      simp [tests, not_mem_tests hs.head_body, not_mem_tests hs.head_next]
    · rw [h id (by simp [hid])]
      simp [tests, not_mem_tests (hs.body_next hid)]
    · rw [h id (by simp [hid])]
      simp [tests, not_mem_tests fun hb => hs.body_next hb hid]
  | doLoop entry test body next ihb ih =>
    rw [ids_doLoop] at h
    have hs := distinctDoLoop_of_nodup hs
    have hne : ∀ {t : Script} {id : BlockId}, entry.id ∉ t.ids → id ∈ t.ids → id ≠ entry.id :=
      fun hentry hid heq => hentry (heq ▸ hid)
    refine .doLoop ?_ (hnone fun t => ?_) (ihb hs.nodup_body fun id hid t => ?_)
      (ih hs.nodup_next fun id hid t => ?_)
    · rw [h entry.id List.mem_cons_self]
      exact List.mem_cons_self
    · rw [h test.id (by simp)]
      simp [tests, Ne.symm hs.entry_test, not_mem_tests hs.test_body, not_mem_tests hs.test_next]
    · rw [h id (by simp [hid])]
      simp [tests, hne hs.entry_body hid, not_mem_tests (hs.body_next hid)]
    · rw [h id (by simp [hid])]
      simp [tests, hne hs.entry_next hid, not_mem_tests fun hb => hs.body_next hb hid]

end Script

/-! ### Charts that show outlines -/

namespace Graph.Shows

variable {g : Graph} {o : Outline} {r : Recovery}

/-- **The loops that are found in a chart are those of its script.** -/
theorem mem_doLoops (h : g.Shows o) (pair : BlockId × BlockId) : pair ∈ g.doLoops ↔ pair ∈ o.script.tests := by
  unfold doLoops
  rw [List.mem_filterMap]
  constructor
  · rintro ⟨b, hb, hpair⟩
    obtain ⟨hb, hkind⟩ := List.mem_filter.mp hb
    have hkind : b.kind = .doWhile := by simpa using hkind
    have hscript : b ∈ o.script.blocks := by
      rcases List.mem_cons.mp (h.blocks.mem_iff.mp hb) with rfl | hb
      · cases hkind
      · rcases List.mem_cons.mp hb with rfl | hb
        · cases hkind
        · exact hb
    obtain ⟨entry, hentry⟩ := Script.exists_entry hscript hkind
    rw [(Script.bodyEntry?_of_laid h.laid o.script_nodup hentry).1] at hpair
    cases hpair
    exact hentry
  · intro hpair
    obtain ⟨entry, test⟩ := pair
    obtain ⟨hentry, b, hb, rfl, hkind⟩ := Script.bodyEntry?_of_laid h.laid o.script_nodup hpair
    have hchart : b ∈ g.blocks := h.blocks.mem_iff.mpr (List.mem_cons_of_mem _ (List.mem_cons_of_mem _ hb))
    refine ⟨b, List.mem_filter.mpr ⟨hchart, by simpa using hkind⟩, ?_⟩
    rw [hentry, Option.map_some]

theorem testAt?_eq_some_iff (h : g.Shows o) (hr : r.doLoops = g.doLoops) (id test : BlockId) :
    r.testAt? id = some test ↔ (id, test) ∈ o.script.tests :=
  Recovery.testAt?_eq_some_iff (o.script.entries_sublist.nodup o.script_nodup)
    (fun pair => by rw [hr, h.mem_doLoops]) id test

/-- No loop begins at a block outside of the script. -/
theorem testAt?_eq_none (h : g.Shows o) (hr : r.doLoops = g.doLoops) {id : BlockId} (hid : id ∉ o.script.ids) :
    r.testAt? id = none := by
  rw [Option.eq_none_iff_forall_ne_some]
  intro test htest
  exact hid (Script.entry_mem_ids ((h.testAt?_eq_some_iff hr id test).mp htest))

/-- **The loops of a chart that shows an outline begin where the script says.** -/
theorem tested (h : g.Shows o) (hr : r.doLoops = g.doLoops) : o.script.Tested r :=
  Script.tested_of_tests o.script_nodup fun id _ test => h.testAt?_eq_some_iff hr id test

end Graph.Shows

end Flowchart
