import Mathlib.Data.List.Induction
import Mathlib.Data.List.Nodup

/-!
# What comes up first

Much is kept in the order in which it first comes up: the functions of a table by the insertions of their names, the
variables of a chart by what is assigned to them, the blocks of a search by the edges that lead to them.  Such an order
is that of a list from which repetitions are taken out, the first occurrence of every element being left
(`List.eraseDups`).

* `eraseDups_concat` — one more element behind the list; `nodup_eraseDups` and `eraseDups_of_nodup` follow from it.
* `eraseDups_append_cons_of_mem` — an element that came up before adds nothing.
-/

namespace Flowchart

variable {α : Type} [DecidableEq α]

/-- One more element is put at the end, unless it came up before. -/
theorem eraseDups_concat (l : List α) (a : α) :
    (l ++ [a]).eraseDups = if a ∈ l then l.eraseDups else l.eraseDups ++ [a] := by
  rw [List.eraseDups_append, List.removeAll]
  by_cases ha : a ∈ l
  · rw [if_pos ha, List.filter_cons_of_neg (by simpa using ha)]
    exact List.append_nil _
  · rw [if_neg ha, List.filter_cons_of_pos (by simpa using ha)]
    rfl

/-- What first comes up is no repetition. -/
theorem nodup_eraseDups (l : List α) : l.eraseDups.Nodup := by
  induction l using List.reverseRecOn with
  | nil => exact List.nodup_nil
  | append_singleton l a ih =>
    rw [eraseDups_concat]
    split
    · exact ih
    · next ha =>
      rw [← List.concat_eq_append]
      exact ih.concat fun hmem => ha (List.mem_eraseDups.mp hmem)

/-- Nothing is taken out of a list without repetitions. -/
theorem eraseDups_of_nodup {l : List α} (h : l.Nodup) : l.eraseDups = l := by
  induction l using List.reverseRecOn with
  | nil => rfl
  | append_singleton l a ih =>
    obtain ⟨hl, -, hapart⟩ := List.nodup_append.mp h
    rw [eraseDups_concat, if_neg fun ha => hapart a ha a (List.mem_singleton_self a) rfl, ih hl]

/-- An element that came up before may be left out. -/
theorem eraseDups_append_cons_of_mem {l : List α} {a : α} (h : a ∈ l) (rest : List α) :
    (l ++ a :: rest).eraseDups = (l ++ rest).eraseDups := by
  rw [List.eraseDups_append, List.eraseDups_append, List.removeAll, List.filter_cons_of_neg (by simpa using h)]
  rfl

end Flowchart
