/-!
# Bindings by name

A table that gives a meaning to some names: variables their values, functions their places.  It is kept as a
list of pairs in the order in which the names first came up; binding a name again replaces what it stood for
and leaves its place.

* `Bindings.get?`, `Bindings.set` — look-up and binding, with the law that relates them (`get?_set`).
* `Bindings.names` — the names in order; `nodup_names_set` says that binding keeps them free of repetition.
-/

namespace Flowchart

/-- Names and what they stand for, in the order of first binding. -/
abbrev Bindings (α : Type) := List (String × α)

namespace Bindings

variable {α : Type}

/-- What a name stands for. -/
def get? (name : String) (b : Bindings α) : Option α :=
  match b with
  | [] => none
  | (n, a) :: rest => if n = name then some a else get? name rest

/-- The bindings in which a name stands for the given thing. -/
def set (name : String) (a : α) (b : Bindings α) : Bindings α :=
  match b with
  | [] => [(name, a)]
  | (n, old) :: rest => if n = name then (n, a) :: rest else (n, old) :: set name a rest

/-- The bound names in order. -/
def names (b : Bindings α) : List String := b.map Prod.fst

/-- After binding a name it stands for what was bound, and every other name for what it stood for. -/
theorem get?_set (name other : String) (a : α) (b : Bindings α) :
    get? other (set name a b) = if other = name then some a else get? other b := by
  induction b with
  | nil => by_cases h : name = other <;> simp [set, get?, h, eq_comm]
  | cons pair rest ih =>
    obtain ⟨n, old⟩ := pair
    by_cases hn : n = name
    · subst hn
      by_cases ho : n = other
      · simp [set, get?, ho]
      · simp [set, get?, ho, Ne.symm ho]
    · by_cases ho : n = other
      · have hne : other ≠ name := fun h => hn (ho.trans h)
        simp [set, get?, ho, hne]
      · simp [set, get?, hn, ho, ih]

/-- A name is bound exactly when it is among the names. -/
theorem isSome_get?_iff (name : String) (b : Bindings α) : (get? name b).isSome ↔ name ∈ names b := by
  induction b with
  | nil => simp [get?, names]
  | cons pair rest ih =>
    obtain ⟨n, a⟩ := pair
    by_cases h : n = name
    · simp [get?, names, h]
    · simp only [names] at ih
      simp [get?, names, h, ih, Ne.symm h]

/-- Binding a name adds it at the end, unless it is bound already. -/
theorem names_set (name : String) (a : α) (b : Bindings α) :
    names (set name a b) = if name ∈ names b then names b else names b ++ [name] := by
  induction b with
  | nil => simp [set, names]
  | cons pair rest ih =>
    obtain ⟨n, old⟩ := pair
    by_cases h : n = name
    · simp [set, names, h]
    · simp only [names] at ih
      simp only [set, names, h, if_false, List.map_cons, List.mem_cons, Ne.symm h, false_or, ih]
      by_cases hm : name ∈ List.map Prod.fst rest <;> simp [hm]

/-- Binding a name repeats none. -/
theorem nodup_names_set (name : String) (a : α) {b : Bindings α} (h : (names b).Nodup) :
    (names (set name a b)).Nodup := by
  rw [names_set]
  split
  · exact h
  · next hn =>
    refine List.nodup_append.mpr ⟨h, by simp, ?_⟩
    intro x hx y hy
    rw [List.mem_singleton] at hy
    intro he
    exact hn (hy ▸ he ▸ hx)

/-- A new name is bound at the end. -/
theorem set_of_not_mem {name : String} {b : Bindings α} (h : name ∉ names b) (a : α) :
    set name a b = b ++ [(name, a)] := by
  induction b with
  | nil => rfl
  | cons pair b ih =>
    obtain ⟨n, old⟩ := pair
    simp only [names, List.map_cons, List.mem_cons, not_or] at h
    rw [set, if_neg (Ne.symm h.1), ih h.2, List.cons_append]

end Bindings

end Flowchart
