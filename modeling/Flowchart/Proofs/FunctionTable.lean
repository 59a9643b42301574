import Flowchart.Program.Basic
import Flowchart.Proofs.FirstOccurrences
import Mathlib.Data.Finset.Card

/-!
# Function tables

* `FunctionTable.names` — the names of the functions, in the order of the table.
* `FunctionTable.Indexed` — the places of a table are the positions of its functions by their names, and no name
  is repeated.  An insertion keeps this (`Indexed.insert`), so every table that is made by insertions has it
  (`indexed_ofList`).
* `Indexed.insert_fresh` — a function with a new name is put at the end of the table.
* **`Indexed.ofList_toList`** — such a table is made again from the list of its functions.
* `Function.LastOf` — the last function of its name in a list.  `FunctionTable.Records` says that a table has the names
  of a list of functions in the order in which they first come up, each with its last function; an insertion adds one
  function to the list (`Records.insert`).
* **`FunctionTable.ofList_keeps_last`** — what is in a table that is made by insertions, and what look-up finds there.
-/

namespace Flowchart

/-! ### Positions as bindings -/

namespace Bindings

/-- Among names that are bound to their positions, a name stands for a position where it is found. -/
theorem getElem?_of_get?_zipIdx {name : String} {names : List String} {start place : Nat}
    (h : get? name (names.zipIdx start) = some place) : ∃ i, place = start + i ∧ names[i]? = some name := by
  induction names generalizing start with
  | nil => cases h
  | cons first names ih =>
    rw [List.zipIdx_cons, get?] at h
    split at h
    · next heq =>
      cases h
      exact ⟨0, rfl, by rw [heq]; rfl⟩
    · obtain ⟨i, rfl, hi⟩ := ih h
      exact ⟨i + 1, by omega, hi⟩

end Bindings

namespace FunctionTable

variable {table : FunctionTable}

/-- The names of the functions, in the order of the table. -/
def names (table : FunctionTable) : List String := table.functions.map Function.name

/-- Every function stands at the place of its name, and no name is repeated. -/
structure Indexed (table : FunctionTable) : Prop where
  places : table.places = table.names.zipIdx
  nodup : table.names.Nodup

theorem indexed_empty : Indexed {} := ⟨rfl, .nil⟩

theorem Indexed.ext {other : FunctionTable} (h : table.Indexed) (hother : other.Indexed)
    (hfunctions : table.functions = other.functions) : table = other := by
  obtain ⟨functions, places⟩ := table
  obtain ⟨functions', places'⟩ := other
  cases hfunctions
  have hplaces : places = places' := h.places.trans hother.places.symm
  rw [hplaces]

/-- The place of a name is a position of the name. -/
theorem Indexed.names_getElem? (h : table.Indexed) {name : String} {place : Nat}
    (hplace : table.places.get? name = some place) : table.names[place]? = some name := by
  rw [h.places] at hplace
  obtain ⟨i, rfl, hi⟩ := Bindings.getElem?_of_get?_zipIdx hplace
  rwa [Nat.zero_add]

/-- A name has a place exactly when a function has the name. -/
theorem Indexed.get?_eq_none_iff (h : table.Indexed) {name : String} :
    table.places.get? name = none ↔ name ∉ table.names := by
  rw [← Option.not_isSome_iff_eq_none, Bindings.isSome_get?_iff, Bindings.names, h.places, List.zipIdx_map_fst]

/-- **What look-up finds**: the function of the name. -/
theorem Indexed.get?_eq_some_iff (h : table.Indexed) {name : String} {f : Function} :
    table.get? name = some f ↔ f ∈ table.functions ∧ f.name = name := by
  have hfound : ∀ {place}, table.places.get? name = some place →
      ∃ g, table.functions[place]? = some g ∧ g.name = name := fun hplace => by
    have hname := h.names_getElem? hplace
    rw [names, List.getElem?_map] at hname
    exact Option.map_eq_some_iff.mp hname
  constructor
  · intro hget
    obtain ⟨place, hplace, hf⟩ := Option.bind_eq_some_iff.mp hget
    obtain ⟨g, hg, hname⟩ := hfound hplace
    cases hg.symm.trans hf
    exact ⟨List.mem_of_getElem? hg, hname⟩
  · rintro ⟨hf, rfl⟩
    cases hplace : table.places.get? f.name with
    | none => exact absurd (List.mem_map_of_mem hf) (h.get?_eq_none_iff.mp hplace)
    | some place =>
      obtain ⟨g, hg, hname⟩ := hfound hplace
      -- Two functions of one name would repeat it.
      have heq : g = f := List.inj_on_of_nodup_map h.nodup (List.mem_of_getElem? hg) hf hname
      rw [get?, hplace, Option.bind_some, hg, heq]

/-- A function with a new name is put at the end. -/
theorem Indexed.insert_fresh (h : table.Indexed) {f : Function} (hfresh : f.name ∉ table.names) :
    (table.insert f).functions = table.functions ++ [f] ∧ (table.insert f).Indexed := by
  have hlength : table.functions.length = table.names.length := by rw [names, List.length_map]
  have hnew : f.name ∉ Bindings.names table.places := by
    rwa [Bindings.names, h.places, List.zipIdx_map_fst]
  have hinsert : table.insert f =
      { functions := table.functions ++ [f], places := table.places ++ [(f.name, table.functions.length)] } := by
    rw [insert, h.get?_eq_none_iff.mpr hfresh, Bindings.set_of_not_mem hnew]
  have hnames : (table.insert f).names = table.names ++ [f.name] := by
    rw [hinsert, names, List.map_append]
    rfl
  refine ⟨by rw [hinsert], ?_, ?_⟩
  · rw [hnames, hinsert, h.places, hlength, List.zipIdx_append, Nat.zero_add]
    rfl
  · rw [hnames, List.nodup_append]
    refine ⟨h.nodup, by simp, fun name hmem other hother heq => hfresh ?_⟩
    rw [← List.mem_singleton.mp hother, ← heq]
    exact hmem

/-- A function with the name of another one leaves the names as they are. -/
theorem Indexed.names_insert_known (h : table.Indexed) {f : Function} {place : Nat}
    (hplace : table.places.get? f.name = some place) : (table.insert f).names = table.names := by
  obtain ⟨hlt, hname⟩ := List.getElem?_eq_some_iff.mp (h.names_getElem? hplace)
  rw [insert, hplace, names, List.map_set, ← hname]
  exact List.set_getElem_self hlt

/-- A function with the name of another one takes its place. -/
theorem Indexed.insert_known (h : table.Indexed) {f : Function} {place : Nat}
    (hplace : table.places.get? f.name = some place) :
    table.insert f = { table with functions := table.functions.set place f } ∧ (table.insert f).Indexed := by
  have hinsert : table.insert f = { table with functions := table.functions.set place f } := by
    rw [insert, hplace]
  have hnames := h.names_insert_known hplace
  refine ⟨hinsert, ?_, ?_⟩
  · rw [hnames, ← h.places, hinsert]
  · rw [hnames]
    exact h.nodup

/-- Beside the function that took a place, the table has the functions of other names. -/
theorem Indexed.mem_insert_known (h : table.Indexed) {f g : Function} {place : Nat}
    (hplace : table.places.get? f.name = some place) (hg : g ∈ (table.insert f).functions) :
    g = f ∨ (g ∈ table.functions ∧ g.name ≠ f.name) := by
  rw [(h.insert_known hplace).1] at hg
  obtain ⟨i, hi⟩ := List.mem_iff_getElem?.mp hg
  rw [List.getElem?_set] at hi
  by_cases hi' : place = i
  · rw [if_pos hi'] at hi
    obtain ⟨-, hf⟩ := Option.ite_none_right_eq_some.mp hi
    exact .inl (Option.some.inj hf).symm
  · rw [if_neg hi'] at hi
    refine .inr ⟨List.mem_of_getElem? hi, fun hname => hi' ?_⟩
    -- Names stand at one position only.
    have hnames : table.names[i]? = some f.name := by
      rw [names, List.getElem?_map, hi, Option.map_some, hname]
    obtain ⟨hlt, -⟩ := List.getElem?_eq_some_iff.mp hnames
    exact ((List.getElem?_inj hlt h.nodup).mp (hnames.trans (h.names_getElem? hplace).symm)).symm

theorem Indexed.insert (h : table.Indexed) (f : Function) : (table.insert f).Indexed := by
  cases hplace : table.places.get? f.name with
  | none => exact (h.insert_fresh (h.get?_eq_none_iff.mp hplace)).2
  | some place => exact (h.insert_known hplace).2

/-- What one insertion keeps, all of them keep. -/
theorem Indexed.foldl (h : table.Indexed) (functions : List Function) :
    (functions.foldl (fun table f => table.insert f) table).Indexed := by
  induction functions generalizing table with
  | nil => exact h
  | cons f functions ih => exact ih (h.insert f)

/-- A table that is made by insertions is indexed. -/
theorem indexed_ofList (functions : List Function) : (ofList functions).Indexed := indexed_empty.foldl functions

/-- Functions with new names are put at the end one after the other. -/
theorem Indexed.foldl_fresh (h : table.Indexed) {functions : List Function}
    (hfresh : (table.names ++ functions.map Function.name).Nodup) :
    (functions.foldl (fun table f => table.insert f) table).functions = table.functions ++ functions := by
  induction functions generalizing table with
  | nil => simp
  | cons f functions ih =>
    have hf : f.name ∉ table.names := fun hmem =>
      (List.nodup_append.mp hfresh).2.2 _ hmem _ (List.mem_map_of_mem List.mem_cons_self) rfl
    obtain ⟨hfunctions, hindexed⟩ := h.insert_fresh hf
    have hnames : (table.insert f).names = table.names ++ [f.name] := by
      rw [names, hfunctions, List.map_append]
      rfl
    rw [List.foldl_cons, ih hindexed (by rw [hnames, List.append_assoc]; exact hfresh), hfunctions,
      List.append_assoc]
    rfl

/-- **An indexed table is made again from the list of its functions.** -/
theorem Indexed.ofList_toList (h : table.Indexed) : ofList table.toList = table := by
  refine (indexed_ofList table.toList).ext h ?_
  rw [ofList, indexed_empty.foldl_fresh (by exact h.nodup)]
  rfl

end FunctionTable

/-! ### What was inserted -/

/-- A function is the last one of its name in a list. -/
def Function.LastOf (functions : List Function) (f : Function) : Prop :=
  ∃ before after, functions = before ++ f :: after ∧ f.name ∉ after.map Function.name

namespace Function.LastOf

variable {functions : List Function} {f g : Function}

theorem mem (h : LastOf functions f) : f ∈ functions := by
  obtain ⟨before, after, rfl, -⟩ := h
  exact List.mem_append_right before List.mem_cons_self

/-- What comes last is the last of its name. -/
theorem concat (functions : List Function) (f : Function) : LastOf (functions ++ [f]) f :=
  ⟨functions, [], rfl, List.not_mem_nil⟩

/-- A function of another name leaves the last one of a name what it is. -/
theorem append_of_ne (h : LastOf functions f) (hne : f.name ≠ g.name) : LastOf (functions ++ [g]) f := by
  obtain ⟨before, after, rfl, hafter⟩ := h
  refine ⟨before, after ++ [g], by rw [List.append_assoc, List.cons_append], fun hmem => ?_⟩
  rw [List.map_append, List.mem_append, List.map_singleton, List.mem_singleton] at hmem
  exact hmem.elim hafter hne

/-- There is one last function of a name. -/
theorem unique (h : LastOf functions f) (h' : LastOf functions g) (hname : f.name = g.name) : f = g := by
  obtain ⟨before, after, rfl, hafter⟩ := h
  obtain ⟨before', after', heq, hafter'⟩ := h'
  rcases List.append_eq_append_iff.mp heq with ⟨between, -, hbetween⟩ | ⟨between, -, hbetween⟩
  · -- The other one does not come behind this one, as it has the same name.
    cases between with
    | nil => exact (List.cons.inj hbetween).1
    | cons first between =>
      obtain ⟨-, rfl⟩ := List.cons.inj hbetween
      exact absurd (hname ▸ List.mem_map_of_mem (List.mem_append_right between List.mem_cons_self)) hafter
  · cases between with
    | nil => exact (List.cons.inj hbetween).1.symm
    | cons first between =>
      obtain ⟨-, rfl⟩ := List.cons.inj hbetween
      exact absurd (hname ▸ List.mem_map_of_mem (List.mem_append_right between List.mem_cons_self)) hafter'

end Function.LastOf

namespace FunctionTable

variable {table : FunctionTable}

/-- A table holds the last function of every name in a list, in the order in which the names first come up there. -/
structure Records (functions : List Function) (table : FunctionTable) : Prop where
  indexed : table.Indexed
  names_eq : table.names = (functions.map Function.name).eraseDups
  last : ∀ f ∈ table.functions, Function.LastOf functions f

theorem records_empty : Records [] {} := ⟨indexed_empty, rfl, fun _ hf => absurd hf List.not_mem_nil⟩

namespace Records

variable {functions : List Function} {f : Function} {name : String}

theorem mem_names_iff (h : Records functions table) : name ∈ table.names ↔ name ∈ functions.map Function.name := by
  rw [h.names_eq, List.mem_eraseDups]

/-- **One more function is inserted**: at the end if its name is new, otherwise in place of the one that had it. -/
theorem insert (h : Records functions table) (f : Function) : Records (functions ++ [f]) (table.insert f) where
  indexed := h.indexed.insert f
  names_eq := by
    rw [List.map_append, List.map_singleton, eraseDups_concat, ← h.names_eq]
    cases hplace : table.places.get? f.name with
    | none =>
      have hfresh := h.indexed.get?_eq_none_iff.mp hplace
      rw [if_neg fun hmem => hfresh (h.mem_names_iff.mpr hmem), names, (h.indexed.insert_fresh hfresh).1,
        List.map_append]
      rfl
    | some place =>
      have hknown := List.mem_of_getElem? (h.indexed.names_getElem? hplace)
      rw [if_pos (h.mem_names_iff.mp hknown), h.indexed.names_insert_known hplace]
  last := by
    intro g hg
    cases hplace : table.places.get? f.name with
    | none =>
      have hfresh := h.indexed.get?_eq_none_iff.mp hplace
      rw [(h.indexed.insert_fresh hfresh).1, List.mem_append, List.mem_singleton] at hg
      rcases hg with hg | rfl
      · exact (h.last g hg).append_of_ne fun hname => hfresh (hname ▸ List.mem_map_of_mem hg)
      · exact .concat functions g
    | some place =>
      rcases h.indexed.mem_insert_known hplace hg with rfl | ⟨hg, hne⟩
      · exact .concat functions g
      · exact (h.last g hg).append_of_ne hne

/-- What a row of insertions leaves in the table. -/
theorem foldl (h : Records functions table) (more : List Function) :
    Records (functions ++ more) (more.foldl (fun table f => table.insert f) table) := by
  induction more generalizing functions table with
  | nil => rwa [List.append_nil]
  | cons f more ih =>
    have hrest := ih (h.insert f)
    rwa [List.append_assoc] at hrest

/-- Look-up finds the last function of a name. -/
theorem get?_eq_some_iff (h : Records functions table) :
    table.get? name = some f ↔ Function.LastOf functions f ∧ f.name = name := by
  rw [h.indexed.get?_eq_some_iff]
  refine and_congr_left fun _ => ⟨h.last f, fun hlast => ?_⟩
  obtain ⟨g, hg, hname⟩ := List.mem_map.mp (h.mem_names_iff.mpr (List.mem_map_of_mem hlast.mem))
  rwa [← (h.last g hg).unique hlast hname]

end Records

/-- **Functions inserted one after the other into an empty table.**  The table lists each of their names once, in the
order in which the names first come up, with the last function of the name; look-up finds just these functions.  A name
is in the table exactly when a function of the name was inserted, and the table is as long as there are such names.
Every place in the index is that of a function with the name there, and the list of the functions gives the table
again. -/
theorem ofList_keeps_last (functions : List Function) :
    (ofList functions).toList.map Function.name = (functions.map Function.name).eraseDups ∧
    (∀ f ∈ (ofList functions).toList, Function.LastOf functions f) ∧
    (∀ name f, (ofList functions).get? name = some f ↔ Function.LastOf functions f ∧ f.name = name) ∧
    (∀ name, (ofList functions).contains name = true ↔ name ∈ functions.map Function.name) ∧
    (ofList functions).size = (functions.map Function.name).toFinset.card ∧
    (∀ name place, (name, place) ∈ (ofList functions).places →
      ∃ f, (ofList functions).toList[place]? = some f ∧ f.name = name) ∧
    ofList (ofList functions).toList = ofList functions := by
  have h : Records functions (ofList functions) := records_empty.foldl functions
  refine ⟨h.names_eq, h.last, fun name f => h.get?_eq_some_iff, fun name => ?_, ?_, fun name place hplace => ?_,
    h.indexed.ofList_toList⟩
  · rw [← h.mem_names_iff, contains, Option.isSome_iff_ne_none, Ne, h.indexed.get?_eq_none_iff, not_not]
  · calc (ofList functions).size
        = (ofList functions).names.length := (List.length_map Function.name).symm
      _ = (functions.map Function.name).eraseDups.length := by rw [h.names_eq]
      _ = (functions.map Function.name).toFinset.card := by
        rw [← List.toFinset_card_of_nodup (nodup_eraseDups _)]
        congr 1
        ext name
        rw [List.mem_toFinset, List.mem_toFinset, List.mem_eraseDups]
  · rw [h.indexed.places, List.mem_zipIdx_iff_getElem?, names, List.getElem?_map] at hplace
    exact Option.map_eq_some_iff.mp hplace

/-- A function that is inserted again keeps its place and gets a new type. -/
example :
    (ofList [{ name := "zeta", returnType := .void }, { name := "alpha", returnType := .int },
      { name := "zeta", returnType := .double }]).toList.map (fun f => (f.name, f.returnType)) =
        [("zeta", .double), ("alpha", .int)] := by decide

end FunctionTable

end Flowchart
