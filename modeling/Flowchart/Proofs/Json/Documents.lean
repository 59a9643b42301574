import Flowchart.Proofs.Json.Tokens
import Mathlib.Data.List.DropRight

/-!
# Documents are read as they were written

* `Wellformed` — the documents that texts can stand for: every string is text, every number is one of the grammar.
* `ReadsBack` — a document is read from its pretty layout at any level, in front of any text that ends a number.
  The reader counts its calls, and the length of the text that it reads is a bound for them.
* `elements?_pretty`, `members?_pretty` — the elements of an array and the members of an object are read if each
  of them reads back.
* **`readsBack`** — every well-formed document reads back, by induction on the document; **`read?_pretty`** — so the
  pretty layout loses nothing.
-/

namespace Flowchart.Json

/-- A document that a text can stand for. -/
inductive Wellformed : Json → Prop where
  | null : Wellformed .null
  | bool (b : Bool) : Wellformed (.bool b)
  | number {literal : Text} (h : number? literal = some (literal, [])) : Wellformed (.number literal)
  | string (s : String) : Wellformed (ofString s)
  | array {elements : List Json} (h : ∀ j ∈ elements, Wellformed j) : Wellformed (.array elements)
  | object {members : List (JsonString × Json)} (hnames : ∀ m ∈ members, m.1.isSome)
      (hvalues : ∀ m ∈ members, Wellformed m.2) : Wellformed (.object members)

theorem wellformed_ofNat (n : Nat) : Wellformed (ofNat n) := .number (number?_toDigits n)

/-- A document is read from its pretty layout. -/
def ReadsBack (j : Json) : Prop :=
  ∀ level fuel rest, EndsNumber rest → (pretty level j).length ≤ fuel →
    value? fuel (pretty level j ++ rest) = some (j, rest)

/-! ### Leading blanks -/

theorem skip_skip (t : Text) : skip (skip t) = skip t := List.dropWhile_idempotent _ _

theorem value?_skip (fuel : Nat) (t : Text) : value? fuel (skip t) = value? fuel t := by
  cases fuel with
  | zero => rfl
  | succ fuel => simp only [value?, skip_skip]

theorem elements?_skip (fuel : Nat) (t : Text) : elements? fuel (skip t) = elements? fuel t := by
  cases fuel with
  | zero => rfl
  | succ fuel => simp only [elements?, value?_skip]

theorem members?_skip (fuel : Nat) (t : Text) : members? fuel (skip t) = members? fuel t := by
  cases fuel with
  | zero => rfl
  | succ fuel => simp only [members?, skip_skip]

theorem value?_blank (fuel : Nat) (t : Text) : value? fuel (' ' :: t) = value? fuel t :=
  (value?_skip fuel (' ' :: t)).symm.trans (value?_skip fuel t)

theorem elements?_newLine (fuel level : Nat) (t : Text) : elements? fuel (newLine level ++ t) = elements? fuel t := by
  rw [← elements?_skip, skip_newLine, elements?_skip]

theorem members?_newLine (fuel level : Nat) (t : Text) : members? fuel (newLine level ++ t) = members? fuel t := by
  rw [← members?_skip, skip_newLine, members?_skip]

/-! ### How values begin -/

/-- A digit or a minus begins no value but a number. -/
theorem ne_of_number_start {c : Char} (h : c = '-' ∨ c.isDigit = true) :
    isSpace c = false ∧ c ≠ '"' ∧ c ≠ '[' ∧ c ≠ ']' ∧ c ≠ '\x7b' ∧ c ≠ 'n' ∧ c ≠ 't' ∧ c ≠ 'f' := by
  have hne : ∀ d : Char, d ≠ '-' → d.isDigit = false → c ≠ d := by
    rintro d hminus hdigit rfl
    rcases h with h | h
    · exact hminus h
    · rw [hdigit] at h
      cases h
  refine ⟨?_, hne _ (by decide) rfl, hne _ (by decide) rfl, hne _ (by decide) rfl, hne _ (by decide) rfl,
    hne _ (by decide) rfl, hne _ (by decide) rfl, hne _ (by decide) rfl⟩
  have hspace := hne ' ' (by decide) rfl
  have htab := hne '\t' (by decide) rfl
  have hnewLine := hne '\n' (by decide) rfl
  have hreturn := hne '\r' (by decide) rfl
  simp [isSpace, hspace, htab, hnewLine, hreturn]

/-- A value begins with no blank, and with no bracket that closes an array. -/
theorem head_of_pretty {j : Json} (h : Wellformed j) (level : Nat) :
    ∃ c t, pretty level j = c :: t ∧ isSpace c = false ∧ c ≠ ']' := by
  cases h with
  | null => exact ⟨'n', _, rfl, rfl, by decide⟩
  | bool b =>
    cases b with
    | false => exact ⟨'f', _, rfl, rfl, by decide⟩
    | true => exact ⟨'t', _, rfl, rfl, by decide⟩
  | number h =>
    obtain ⟨c, t, rfl, hc⟩ := head_of_number? h
    obtain ⟨hspace, -, -, hbracket, -⟩ := ne_of_number_start hc
    exact ⟨c, t, rfl, hspace, hbracket⟩
  | string s => exact ⟨'"', _, rfl, rfl, by decide⟩
  | @array elements h =>
    cases elements with
    | nil => exact ⟨'[', _, rfl, rfl, by decide⟩
    | cons j elements => exact ⟨'[', _, rfl, rfl, by decide⟩
  | @object members hnames hvalues =>
    cases members with
    | nil => exact ⟨'\x7b', _, rfl, rfl, by decide⟩
    | cons m members => exact ⟨'\x7b', _, rfl, rfl, by decide⟩

theorem value?_scalar {c : Char} (hspace : isSpace c = false) (hquote : c ≠ '"') (hbracket : c ≠ '[')
    (hbrace : c ≠ '\x7b') (fuel : Nat) (t : Text) : value? (fuel + 1) (c :: t) = scalar? (c :: t) := by
  rw [value?, skip_of_not_space hspace]
  simp [hquote, hbracket, hbrace]

theorem scalar?_number {c : Char} (hnull : c ≠ 'n') (htrue : c ≠ 't') (hfalse : c ≠ 'f') (t : Text) :
    scalar? (c :: t) = (number? (c :: t)).map fun p => (.number p.1, p.2) := by
  have hnone : ∀ {b : Char} (bs : Text), c ≠ b → Text.after? (b :: bs) (c :: t) = none := fun _ hb => if_neg hb.symm
  have hnull : Text.after? "null".toList (c :: t) = none := hnone _ hnull
  have htrue : Text.after? "true".toList (c :: t) = none := hnone _ htrue
  have hfalse : Text.after? "false".toList (c :: t) = none := hnone _ hfalse
  rw [scalar?, hnull, htrue, hfalse]

theorem value?_bracket {t : Text} (h : (skip t).head? ≠ some ']') (fuel : Nat) :
    value? (fuel + 1) ('[' :: t) = (elements? fuel t).map fun p => (.array p.1, p.2) := by
  rw [value?, skip_of_not_space (by rfl)]
  simp only
  split
  · next heq => exact absurd (by rw [heq]; rfl) h
  · rw [elements?_skip]

theorem value?_brace {t : Text} (h : (skip t).head? ≠ some '\x7d') (fuel : Nat) :
    value? (fuel + 1) ('\x7b' :: t) = (members? fuel t).map fun p => (.object p.1, p.2) := by
  rw [value?, skip_of_not_space (by rfl)]
  simp only
  split
  · next heq => exact absurd (by rw [heq]; rfl) h
  · rw [members?_skip]

/-! ### Arrays and objects -/

/-- Elements are read if each of them reads back. -/
theorem elements?_pretty {first : Json} {elements : List Json} (h : ∀ j ∈ first :: elements, ReadsBack j)
    (level closing : Nat) (rest : Text) {fuel : Nat}
    (hfuel : (pretty level first).length + (prettyElements level elements).length < fuel) :
    elements? fuel (pretty level first ++ (prettyElements level elements ++ (newLine closing ++ ']' :: rest))) =
      some (first :: elements, rest) := by
  -- along the elements; what comes after each of them, a new line or a comma, ends a number
  induction elements generalizing first fuel with
  | nil =>
    obtain ⟨fuel, rfl⟩ := Nat.exists_eq_succ_of_ne_zero (Nat.ne_zero_of_lt hfuel)
    have hfirst := h first List.mem_cons_self level fuel (newLine closing ++ ']' :: rest) (endsNumber_newLine _ _)
      (by omega)
    simp [elements?, prettyElements, hfirst, skip_newLine, skip_of_not_space (c := ']') rfl]
  | cons second elements ih =>
    obtain ⟨fuel, rfl⟩ := Nat.exists_eq_succ_of_ne_zero (Nat.ne_zero_of_lt hfuel)
    simp only [prettyElements, List.cons_append, List.append_assoc, List.length_cons, List.length_append] at hfuel ⊢
    have hfirst := h first List.mem_cons_self level fuel
      (',' :: (newLine level ++ (pretty level second ++ (prettyElements level elements ++
        (newLine closing ++ ']' :: rest)))))
      (endsNumber_comma _) (by omega)
    have hless : (pretty level second).length + (prettyElements level elements).length < fuel := by omega
    have hrest := ih (fun j hj => h j (List.mem_cons_of_mem _ hj)) hless
    simp [elements?, hfirst, skip_of_not_space (c := ',') rfl, elements?_newLine, hrest]

/-- Members are read if each of their values reads back. -/
theorem members?_pretty {name : String} {first : Json} {members : List (JsonString × Json)}
    (hnames : ∀ m ∈ members, m.1.isSome) (h : ∀ m ∈ (some name, first) :: members, ReadsBack m.2)
    (level closing : Nat) (rest : Text) {fuel : Nat}
    (hfuel : (pretty level first).length + (prettyMembers level members).length < fuel) :
    members? fuel
        (jsonStringText (some name) ++ (':' :: ' ' :: (pretty level first ++
          (prettyMembers level members ++ (newLine closing ++ '\x7d' :: rest))))) =
      some ((some name, first) :: members, rest) := by
  have hname : ∀ (name : String) (t : Text),
      memberName? (skip (jsonStringText (some name) ++ ':' :: t)) = some (some name, t) := fun name t => by
    rw [jsonStringText_append, skip_of_not_space rfl, ← jsonStringText_append, memberName?_jsonStringText]
  induction members generalizing name first fuel with
  | nil =>
    obtain ⟨fuel, rfl⟩ := Nat.exists_eq_succ_of_ne_zero (Nat.ne_zero_of_lt hfuel)
    have hfirst := h _ List.mem_cons_self level fuel (newLine closing ++ '\x7d' :: rest) (endsNumber_newLine _ _)
      (by simp only; omega)
    simp [members?, prettyMembers, hname, value?_blank, hfirst, skip_newLine, skip_of_not_space (c := '\x7d') rfl]
  | cons m members ih =>
    obtain ⟨fuel, rfl⟩ := Nat.exists_eq_succ_of_ne_zero (Nat.ne_zero_of_lt hfuel)
    obtain ⟨second, value⟩ := m
    obtain ⟨second, rfl⟩ := Option.isSome_iff_exists.mp (hnames _ List.mem_cons_self)
    simp only [prettyMembers, List.cons_append, List.append_assoc, List.length_cons, List.length_append] at hfuel ⊢
    have hfirst : value? fuel (pretty level first ++ _) = _ := h _ List.mem_cons_self level fuel
      (',' :: (newLine level ++ (jsonStringText (some second) ++ (':' :: ' ' :: (pretty level value ++
        (prettyMembers level members ++ (newLine closing ++ '\x7d' :: rest)))))))
      (endsNumber_comma _) (by simp only; omega)
    have hless : (pretty level value).length + (prettyMembers level members).length < fuel := by omega
    have hrest := ih (fun m hm => hnames m (List.mem_cons_of_mem _ hm))
      (fun m hm => h m (List.mem_cons_of_mem _ hm)) hless
    simp [members?, hname, value?_blank, hfirst, skip_of_not_space (c := ',') rfl, members?_newLine, hrest]

/-! ### Whole documents -/

/-- A value takes at least one call to read, which its text allows. -/
theorem readsBack_of_succ {j : Json} (h : Wellformed j)
    (hread : ∀ level fuel rest, EndsNumber rest → (pretty level j).length ≤ fuel + 1 →
      value? (fuel + 1) (pretty level j ++ rest) = some (j, rest)) : ReadsBack j := by
  intro level fuel rest hrest hfuel
  obtain ⟨c, t, hcons, -⟩ := head_of_pretty h level
  cases fuel with
  | zero => simp [hcons] at hfuel
  | succ fuel => exact hread level fuel rest hrest hfuel

theorem readsBack_number {literal : Text} (h : number? literal = some (literal, [])) : ReadsBack (.number literal) := by
  refine readsBack_of_succ (.number h) fun level fuel rest hrest _ => ?_
  obtain ⟨c, t, rfl, hc⟩ := head_of_number? h
  obtain ⟨hspace, hquote, hbracket, -, hbrace, hnull, htrue, hfalse⟩ := ne_of_number_start hc
  rw [pretty, List.cons_append, value?_scalar hspace hquote hbracket hbrace, scalar?_number hnull htrue hfalse,
    ← List.cons_append, number?_append hrest h]
  rfl

theorem readsBack_string (s : String) : ReadsBack (ofString s) := by
  refine readsBack_of_succ (.string s) fun level fuel rest _ _ => ?_
  rw [ofString, pretty, jsonStringText_append, value?, skip_of_not_space (by rfl)]
  simp [string?_escape]

theorem readsBack_array {elements : List Json} (h : ∀ j ∈ elements, Wellformed j)
    (helements : ∀ j ∈ elements, ReadsBack j) : ReadsBack (.array elements) := by
  refine readsBack_of_succ (.array h) fun level fuel rest _ hfuel => ?_
  cases elements with
  | nil => rfl
  | cons first elements =>
    simp only [pretty, List.cons_append, List.append_assoc, List.nil_append, List.length_cons, List.length_append,
      List.length_nil] at hfuel ⊢
    have hless : (pretty (level + 1) first).length + (prettyElements (level + 1) elements).length < fuel := by omega
    have hread := elements?_pretty helements (level + 1) level rest hless
    obtain ⟨c, t, hcons, hspace, hbracket⟩ := head_of_pretty (h first (by simp)) (level + 1)
    rw [value?_bracket, elements?_newLine, hread]
    · rfl
    · rw [skip_newLine, hcons, List.cons_append, skip_of_not_space hspace]
      simpa using hbracket

theorem readsBack_object {members : List (JsonString × Json)} (hnames : ∀ m ∈ members, m.1.isSome)
    (h : ∀ m ∈ members, Wellformed m.2) (hmembers : ∀ m ∈ members, ReadsBack m.2) : ReadsBack (.object members) := by
  refine readsBack_of_succ (.object hnames h) fun level fuel rest _ hfuel => ?_
  cases members with
  | nil => rfl
  | cons m members =>
    obtain ⟨name, first⟩ := m
    obtain ⟨name, rfl⟩ := Option.isSome_iff_exists.mp (hnames _ List.mem_cons_self)
    simp only [pretty, List.cons_append, List.append_assoc, List.nil_append, List.length_cons, List.length_append,
      List.length_nil] at hfuel ⊢
    have hless : (pretty (level + 1) first).length + (prettyMembers (level + 1) members).length < fuel := by omega
    have hread := members?_pretty (fun m hm => hnames m (List.mem_cons_of_mem _ hm)) hmembers (level + 1) level rest
      hless
    rw [value?_brace, members?_newLine, hread]
    · rfl
    · rw [skip_newLine, jsonStringText_append, skip_of_not_space (by rfl)]
      simp

/-- Every well-formed document is read from its pretty layout. -/
theorem readsBack {j : Json} (h : Wellformed j) : ReadsBack j := by
  induction h with
  | null => exact readsBack_of_succ .null fun _ _ _ _ _ => rfl
  | bool b => exact readsBack_of_succ (.bool b) fun _ _ _ _ _ => by cases b <;> rfl
  | number h => exact readsBack_number h
  | string s => exact readsBack_string s
  | array h ih => exact readsBack_array h ih
  | object hnames hvalues ih => exact readsBack_object hnames hvalues ih

/-- **The pretty layout of a document is read as this document.** -/
theorem read?_pretty {j : Json} (h : Wellformed j) : read? (pretty 0 j) = some j := by
  have hread := readsBack h 0 ((pretty 0 j).length + 1) [] endsNumber_nil (by omega)
  rw [List.append_nil] at hread
  rw [read?, hread]
  rfl

end Flowchart.Json
