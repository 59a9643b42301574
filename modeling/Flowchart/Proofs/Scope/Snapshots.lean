import Flowchart.Scope
import Mathlib.Data.Finset.Card
import Mathlib.Data.String.Basic

/-!
# Snapshots and the scopes they show

A snapshot is made from what is visible in a scope: the variables of the innermost frame, and the globals that they do
not hide.  It is sorted by insertion.  As long as no frame binds a name twice, nothing is visible under one name twice,
and then a snapshot and the scope agree on every name.

* `Bindings.get?_eq_some_iff`, `Bindings.get?_perm` — look-up among bindings of different names, in whatever order.
* `Snapshot.ofBindings_perm` — sorting neither adds nor loses a binding; `ascending_ofBindings` says that it sorts.
* `Scope.Unrepeated` — no frame binds a name twice, nor do the globals.
* `Scope.get?_visible`, `Scope.Unrepeated.nodup_visible` — what is visible is what look-up finds, each name once.
* `Scope.Unrepeated.get?_snapshot`, `Scope.Unrepeated.ascending_snapshot` — the same of the snapshot, and its order.
-/

namespace Flowchart

/-! ### Bindings in any order -/

namespace Bindings

variable {α : Type} {name : String} {a : α} {b c : Bindings α}

/-- What is found under a name is bound to it. -/
theorem mem_of_get? (h : get? name b = some a) : (name, a) ∈ b := by
  induction b with
  | nil => cases h
  | cons pair rest ih =>
    obtain ⟨n, other⟩ := pair
    rw [get?] at h
    split at h
    · next hname =>
      cases h
      rw [hname]
      exact List.mem_cons_self
    · exact List.mem_cons_of_mem _ (ih h)

/-- A name that is bound once stands for what it is bound to. -/
theorem get?_eq_some_iff (h : (names b).Nodup) : get? name b = some a ↔ (name, a) ∈ b := by
  refine ⟨mem_of_get?, fun hmem => ?_⟩
  induction b with
  | nil => cases hmem
  | cons pair rest ih =>
    obtain ⟨n, other⟩ := pair
    obtain ⟨hfirst, hrest⟩ := List.nodup_cons.mp h
    rw [get?]
    rcases List.mem_cons.mp hmem with heq | hmem
    · cases heq
      exact if_pos rfl
    · have hne : n ≠ name := by
        rintro rfl
        exact hfirst (List.mem_map.mpr ⟨_, hmem, rfl⟩)
      rw [if_neg hne]
      exact ih hrest hmem

/-- Look-up does not depend on the order of bindings of different names. -/
theorem get?_perm (h : b.Perm c) (hb : (names b).Nodup) (name : String) : get? name b = get? name c := by
  have hc : (names c).Nodup := (h.map Prod.fst).nodup hb
  refine Option.ext fun a => ?_
  rw [get?_eq_some_iff hb, get?_eq_some_iff hc]
  exact h.mem_iff

/-- Bindings in front are looked up first. -/
theorem get?_append (name : String) (b c : Bindings α) : get? name (b ++ c) = (get? name b).or (get? name c) := by
  induction b with
  | nil => rfl
  | cons pair rest ih =>
    obtain ⟨n, other⟩ := pair
    rw [List.cons_append, get?, get?, ih]
    split <;> rfl

/-- Look-up among the bindings of some names only. -/
theorem get?_filter (keep : String → Bool) (name : String) (b : Bindings α) :
    get? name (b.filter fun pair => keep pair.1) = if keep name then get? name b else none := by
  induction b with
  | nil => simp [get?]
  | cons pair rest ih =>
    obtain ⟨n, other⟩ := pair
    by_cases hn : n = name
    · subst hn
      cases hkeep : keep n <;> simp [get?, hkeep, ih]
    · cases hkeep : keep n <;> simp [get?, hkeep, hn, ih]

end Bindings

/-! ### Sorting by insertion -/

namespace Snapshot

variable {pair : String × Value} {b : Bindings Value}

/-- The names come in ascending order, each one once. -/
def Ascending (s : Snapshot) : Prop := (Bindings.names s).Pairwise (· < ·)

theorem insert_perm (pair : String × Value) (s : Snapshot) : (insert pair s).Perm (pair :: s) := by
  induction s with
  | nil => exact .refl _
  | cons other rest ih =>
    rw [insert]
    split
    · exact .refl _
    · exact (ih.cons other).trans (.swap pair other rest)

/-- **Sorting neither adds nor loses a binding.** -/
theorem ofBindings_perm (b : Bindings Value) : (ofBindings b).Perm b := by
  induction b with
  | nil => exact .refl _
  | cons pair rest ih => exact (insert_perm pair (ofBindings rest)).trans (ih.cons pair)

/-- A binding of a new name is put at its place. -/
theorem Ascending.insert {s : Snapshot} (h : Ascending s) (hnew : pair.1 ∉ Bindings.names s) :
    Ascending (insert pair s) := by
  induction s with
  | nil => exact List.pairwise_singleton _ _
  | cons other rest ih =>
    obtain ⟨hother, hrest⟩ := List.pairwise_cons.mp h
    obtain ⟨hne, hnew⟩ := not_or.mp fun hor => hnew (List.mem_cons.mpr hor)
    rw [Snapshot.insert]
    split
    · next hlt =>
      refine List.pairwise_cons.mpr ⟨fun name hname => ?_, h⟩
      rcases List.mem_cons.mp hname with rfl | hname
      · exact hlt
      · exact hlt.trans (hother name hname)
    · next hnlt =>
      refine List.pairwise_cons.mpr ⟨fun name hname => ?_, ih hrest hnew⟩
      -- What stands behind `other` is the new name, or it stood there before.
      rcases List.mem_cons.mp (((insert_perm pair rest).map Prod.fst).mem_iff.mp hname) with rfl | hname
      · exact lt_of_le_of_ne (not_lt.mp hnlt) (Ne.symm hne)
      · exact hother name hname

/-- **Bindings of different names are sorted.** -/
theorem ascending_ofBindings (h : (Bindings.names b).Nodup) : Ascending (ofBindings b) := by
  induction b with
  | nil => exact .nil
  | cons pair rest ih =>
    obtain ⟨hnew, hrest⟩ := List.nodup_cons.mp h
    exact (ih hrest).insert fun hmem => hnew (((ofBindings_perm rest).map Prod.fst).mem_iff.mp hmem)

end Snapshot

namespace Scope

variable {s : Scope} {name : String} {v : Value}

/-- **What is visible is what look-up finds.** -/
theorem get?_visible (name : String) (s : Scope) : Bindings.get? name s.visible = s.get? name := by
  unfold visible get?
  split
  · rfl
  · next f rest _ =>
    rw [Bindings.get?_append, Bindings.get?_filter fun name => (f.get? name).isNone]
    cases hlocal : f.get? name with
    | none =>
      show (Bindings.get? name s.globals).or (f.get? name) = _
      rw [hlocal, Option.or_none]
      rfl
    | some w => exact hlocal

/-- **The value of a variable is shown in the snapshot.** -/
theorem mem_snapshot_of_get? (h : s.get? name = some v) : (name, v) ∈ s.snapshot := by
  rw [← get?_visible] at h
  exact (Snapshot.ofBindings_perm s.visible).mem_iff.mpr (Bindings.mem_of_get? h)

/-- No name is bound twice in one frame, nor among the globals. -/
structure Unrepeated (s : Scope) : Prop where
  globals : (Bindings.names s.globals).Nodup
  locals : ∀ f ∈ s.frames, (Bindings.names f.locals).Nodup

namespace Unrepeated

/-- Nothing is visible under one name twice: a global is left out where a variable of the frame hides it. -/
theorem nodup_visible (h : s.Unrepeated) : (Bindings.names s.visible).Nodup := by
  unfold visible
  split
  · exact h.globals
  · next f rest hframes =>
    have hlocals : (Bindings.names f.locals).Nodup := h.locals f (by rw [hframes]; exact List.mem_cons_self)
    rw [Bindings.names, List.map_append, List.nodup_append]
    refine ⟨h.globals.sublist (List.filter_sublist.map _), hlocals, ?_⟩
    rintro name hglobal other hlocal rfl
    obtain ⟨pair, hpair, rfl⟩ := List.mem_map.mp hglobal
    have hhidden : (f.get? pair.1).isSome := (Bindings.isSome_get?_iff pair.1 f.locals).mpr hlocal
    have hshown : (f.get? pair.1).isNone = true := (List.mem_filter.mp hpair).2
    rw [Option.isNone_iff_eq_none.mp hshown] at hhidden
    cases hhidden

/-- **A snapshot shows for every name what look-up finds.** -/
theorem get?_snapshot (h : s.Unrepeated) (name : String) : Bindings.get? name s.snapshot = s.get? name := by
  have hperm : s.visible.Perm s.snapshot := (Snapshot.ofBindings_perm s.visible).symm
  rw [← Bindings.get?_perm hperm h.nodup_visible, get?_visible]

/-- **A snapshot is in the order of the names.** -/
theorem ascending_snapshot (h : s.Unrepeated) : s.snapshot.Ascending := Snapshot.ascending_ofBindings h.nodup_visible

/-- The names in a snapshot are those that have a value. -/
theorem mem_names_snapshot (h : s.Unrepeated) : name ∈ Bindings.names s.snapshot ↔ s.has name = true := by
  rw [← Bindings.isSome_get?_iff, h.get?_snapshot]
  rfl

end Unrepeated

end Scope

end Flowchart
