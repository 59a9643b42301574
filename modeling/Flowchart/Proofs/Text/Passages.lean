import Flowchart.Text.Nesting
import Flowchart.Text.Words
import Mathlib

/-!
# Words and passages

Labels are read by taking pieces out of them: margins are cut off, parentheses taken away, and what stands between
separators is read in turn.  No reader cuts through a word, so a word that is found in a piece of a piece is a word of
the label.

* `isWord_of_isNamePart`, `isWord_of_isBlank` — the classes of characters apart.
* `runs_append_word`, `runs_append` — the runs of a text that is put together from two.
* `Passage` — a text stands in another one, and no word goes over into it from what is in front of it;
  `Passage.trans` says that the passages of passages are passages.
* `passage_trim`, `passage_of_enclosed`, `passage_of_mem_splitTop` — what the readers of texts take out.
* `Applied` — a name stands in a text, with something behind it that is no part of a word;
  **`mem_names_of_applied`** says that it is one of the names of the text.
-/

namespace Flowchart.Text

/-! ### Characters -/

section Characters

variable {c : Char}

/-- In ASCII, words are made of the characters of names. -/
theorem isWord_of_ascii (h : c.toNat < 128) : isWord c = isNamePart c := if_pos h

theorem ascii_of_isNamePart (h : isNamePart c = true) : c.toNat < 128 := by
  simp only [isNamePart, Char.isAlphanum, Char.isAlpha, Char.isUpper, Char.isLower, Char.isDigit, Bool.or_eq_true,
    Bool.and_eq_true, decide_eq_true_eq, beq_iff_eq, UInt32.le_iff_toNat_le, ge_iff_le] at h
  change (((65 ≤ c.toNat ∧ c.toNat ≤ 90) ∨ (97 ≤ c.toNat ∧ c.toNat ≤ 122)) ∨ (48 ≤ c.toNat ∧ c.toNat ≤ 57)) ∨
    c = '_' at h
  rcases h with h | rfl
  · omega
  · decide

theorem isWord_of_isNamePart (h : isNamePart c = true) : isWord c = true := by
  rw [isWord_of_ascii (ascii_of_isNamePart h), h]

/-- A blank is no part of a name. -/
theorem isNamePart_of_isBlank (h : isBlank c = true) : isNamePart c = false := by
  cases hname : isNamePart c with
  | false => rfl
  | true =>
    simp only [isNamePart, Char.isAlphanum, Char.isAlpha, Char.isUpper, Char.isLower, Char.isDigit, Bool.or_eq_true,
      Bool.and_eq_true, decide_eq_true_eq, beq_iff_eq, UInt32.le_iff_toNat_le, ge_iff_le] at hname
    simp only [isBlank, Bool.or_eq_true, Bool.and_eq_true, decide_eq_true_eq, beq_iff_eq] at h
    change (((65 ≤ c.toNat ∧ c.toNat ≤ 90) ∨ (97 ≤ c.toNat ∧ c.toNat ≤ 122)) ∨ (48 ≤ c.toNat ∧ c.toNat ≤ 57)) ∨
      c = '_' at hname
    rcases hname with hname | rfl
    · omega
    · revert h
      decide

/-- Blanks are no part of words, in any script. -/
theorem isWord_of_isBlank (h : isBlank c = true) : isWord c = false := by
  by_cases hascii : c.toNat < 128
  · rw [isWord_of_ascii hascii, isNamePart_of_isBlank h]
  · have htable : ∀ n ∈ [0x85, 0xA0, 0x1680, 0x2028, 0x2029, 0x202F, 0x205F, 0x3000] ++ List.range' 0x2000 11,
        Ranges.wordCharacter.holds n = false := by
      decide +kernel
    unfold isWord
    rw [if_neg hascii]
    apply htable
    simp only [isBlank, Bool.or_eq_true, Bool.and_eq_true, decide_eq_true_eq, beq_iff_eq] at h
    simp only [List.mem_append, List.mem_cons, List.not_mem_nil, List.mem_range'_1]
    omega

theorem isNamePart_of_isNameStart (h : isNameStart c = true) : isNamePart c = true := by
  simp only [isNameStart, isNamePart, Char.isAlphanum, Bool.or_eq_true] at h ⊢
  rcases h with h | h
  · exact .inl (.inl h)
  · exact .inr h

/-- A name is made of name characters. -/
theorem isNamePart_of_mem_name {t : Text} (h : isName t = true) {c : Char} (hc : c ∈ t) : isNamePart c = true := by
  cases t with
  | nil => cases hc
  | cons d t =>
    simp only [isName, Bool.and_eq_true, List.all_eq_true] at h
    rcases List.mem_cons.mp hc with rfl | hc
    · exact isNamePart_of_isNameStart h.1
    · exact h.2 c hc

end Characters

/-! ### Runs -/

section Runs

variable {c : Char} {t r : Text}

/-- The first run begins as the text does. -/
theorem head?_of_runs {d : Char} {q : Text} {rest : List Text} (h : runs t = (d :: q) :: rest) : t.head? = some d := by
  rw [← flatten_runs t, h]
  rfl

theorem runs_cons_eq (c : Char) (t : Text) : ∃ q rest, runs (c :: t) = (c :: q) :: rest := by
  rw [runs]
  split
  · split
    · exact ⟨_, _, rfl⟩
    · exact ⟨_, _, rfl⟩
  · exact ⟨_, _, rfl⟩

/-- **A word is a run** if no word goes on behind it. -/
theorem runs_append_word (hne : t ≠ []) (hword : ∀ c ∈ t, isWord c = true) (hr : ∀ d ∈ r.head?, isWord d = false) :
    runs (t ++ r) = t :: runs r := by
  induction t with
  | nil => exact absurd rfl hne
  | cons c t ih =>
    have hc : isWord c = true := hword c List.mem_cons_self
    cases t with
    | nil =>
      rw [List.singleton_append, runs]
      split
      · next d q rest hruns =>
        have hd := hr d (head?_of_runs hruns)
        rw [if_neg (by rw [hc, hd]; decide), hruns]
      · rfl
    | cons d t =>
      have hd : isWord d = true := hword d (by simp)
      rw [List.cons_append, runs, ih (List.cons_ne_nil d t) fun b hb => hword b (List.mem_cons_of_mem c hb)]
      dsimp only
      rw [if_pos (by rw [hc, hd])]

/-- **Runs end where words end**: a text has the runs of its two parts if no run goes over from one into the other. -/
theorem runs_append (h : ∀ c ∈ t.getLast?, ∀ d ∈ r.head?, isWord c ≠ isWord d) : runs (t ++ r) = runs t ++ runs r := by
  induction t with
  | nil => rfl
  | cons c t ih =>
    cases t with
    | nil =>
      cases r with
      | nil => rfl
      | cons d r =>
        obtain ⟨q, rest, hruns⟩ := runs_cons_eq d r
        rw [List.singleton_append, runs, hruns]
        exact if_neg (h c rfl d rfl)
    | cons d t =>
      obtain ⟨q, rest, hruns⟩ := runs_cons_eq d t
      have hrest := ih fun e he => h e (by rwa [List.getLast?_cons_cons])
      have hfirst : runs (c :: d :: t) =
          if isWord c = isWord d then (c :: d :: q) :: rest else [c] :: (d :: q) :: rest := by
        rw [runs, hruns]
      rw [List.cons_append, hfirst, runs, hrest, hruns, List.cons_append]
      dsimp only
      split <;> rfl

end Runs

/-! ### Passages -/

/-- A text stands in another one.  No word goes over into it, if it begins with a character of names. -/
def Passage (u t : Text) : Prop :=
  ∃ before after, t = before ++ u ++ after ∧
    ∀ c ∈ before.getLast?, ∀ d ∈ u.head?, isNamePart d = true → isWord c = false

section Passages

variable {u v t before after : Text} {c : Char}

theorem Passage.refl (t : Text) : Passage t t :=
  ⟨[], [], (List.append_nil t).symm, fun _ hc => absurd hc (Option.not_mem_none _)⟩

theorem Passage.initial (h : u <+: t) : Passage u t := by
  obtain ⟨after, rfl⟩ := h
  exact ⟨[], after, rfl, fun _ hc => absurd hc (Option.not_mem_none _)⟩

/-- What stands behind a character from which no word goes over into it is a passage. -/
theorem Passage.beyond (h : ∀ d ∈ u.head?, isNamePart d = true → isWord c = false) (before after : Text) :
    Passage u (before ++ c :: (u ++ after)) := by
  refine ⟨before ++ [c], after, by simp, fun b hb => ?_⟩
  rw [List.getLast?_append_of_ne_nil _ (List.cons_ne_nil c [])] at hb
  cases hb
  exact h

theorem Passage.ending (h : ∀ d ∈ u.head?, isNamePart d = true → isWord c = false) (before : Text) :
    Passage u (before ++ c :: u) := by
  have hpassage := Passage.beyond h before []
  rwa [List.append_nil] at hpassage

theorem Passage.behind (hc : isWord c = false) (before u after : Text) : Passage u (before ++ c :: (u ++ after)) :=
  .beyond (fun _ _ _ => hc) before after

/-- What begins with no word is a passage wherever it stands. -/
theorem Passage.apart (h : ∀ d ∈ u.head?, isWord d = false) (before : Text) : Passage u (before ++ u) := by
  refine ⟨before, [], (List.append_nil _).symm, fun c _ d hd hpart => ?_⟩
  exact absurd (isWord_of_isNamePart hpart) (by rw [h d hd]; exact Bool.false_ne_true)

/-- **A passage of a passage is a passage.** -/
theorem Passage.trans (h : Passage v u) (h' : Passage u t) : Passage v t := by
  obtain ⟨before, after, rfl, hloose⟩ := h
  obtain ⟨before', after', rfl, hloose'⟩ := h'
  refine ⟨before' ++ before, after ++ after', by simp, fun c hc d hd => ?_⟩
  cases before with
  | nil =>
    -- In front of the inner passage stands what stands in front of the outer one.
    refine hloose' c (by rwa [List.append_nil] at hc) d ?_
    cases v with
    | nil => cases hd
    | cons e v => exact hd
  | cons b before =>
    rw [List.getLast?_append_of_ne_nil _ (List.cons_ne_nil b before)] at hc
    exact hloose c hc d hd

/-! ### Margins, parentheses and separators -/

theorem passage_dropWhile {p : Char → Bool} (hp : ∀ c, p c = true → isWord c = false) (t : Text) :
    Passage (t.dropWhile p) t := by
  refine ⟨t.takeWhile p, [], by simp, fun c hc _ _ _ => hp c ?_⟩
  exact List.all_eq_true.mp List.all_takeWhile c (List.mem_of_getLast? hc)

theorem passage_trimStart (t : Text) : Passage (trimStart t) t := passage_dropWhile (fun _ => isWord_of_isBlank) t

/-- What is cut off at the end are blanks. -/
theorem exists_blanks_trimEnd (t : Text) : ∃ blanks, t = trimEnd t ++ blanks ∧ ∀ c ∈ blanks, isBlank c = true := by
  refine ⟨(t.reverse.takeWhile isBlank).reverse, ?_, fun c hc => ?_⟩
  · unfold trimEnd
    rw [← List.reverse_append, List.takeWhile_append_dropWhile, List.reverse_reverse]
  · exact List.all_eq_true.mp List.all_takeWhile c (List.mem_reverse.mp hc)

theorem prefix_trimEnd (t : Text) : trimEnd t <+: t := by
  obtain ⟨blanks, ht, -⟩ := exists_blanks_trimEnd t
  exact ⟨blanks, ht.symm⟩

theorem passage_trim (t : Text) : Passage (trim t) t :=
  (Passage.initial (prefix_trimEnd _)).trans (passage_trimStart t)

/-- What is enclosed has a parenthesis on either side. -/
theorem eq_of_enclosed (h : enclosed? t = some u) : t = '(' :: (u ++ [')']) := by
  unfold enclosed? at h
  split at h
  · next rest =>
    split at h
    · next before hclosing =>
      have heq := eq_append_of_closing hclosing
      cases h
      cases before with
      | nil => cases heq
      | cons c before =>
        cases (List.cons.inj heq).1
        exact heq
    · cases h
  · cases h

theorem passage_of_enclosed (h : enclosed? t = some u) : Passage u t := by
  rw [eq_of_enclosed h]
  exact .behind (by decide) [] u [')']

/-- The parts of a text that is cut: the first one stands at its beginning, and in front of every other one stands the
separator. -/
theorem splitFrom_spec {separator : Char} {n : Nesting} {part : Text} {parts : List Text}
    (h : splitFrom separator n t = part :: parts) :
    part <+: t ∧ ∀ other ∈ parts, ∃ before after, t = before ++ separator :: (other ++ after) := by
  induction t generalizing n part parts with
  | nil =>
    cases h
    exact ⟨List.nil_prefix, fun _ hother => absurd hother List.not_mem_nil⟩
  | cons c t ih =>
    rw [splitFrom] at h
    split at h
    · next hcut =>
      cases h
      obtain ⟨rfl, -⟩ : c = separator ∧ _ := by simpa [and_assoc] using hcut
      refine ⟨List.nil_prefix, fun other hother => ?_⟩
      cases hrest : splitFrom c n t with
      | nil =>
        rw [hrest] at hother
        cases hother
      | cons first others =>
        obtain ⟨hfirst, hothers⟩ := ih hrest
        rw [hrest] at hother
        rcases List.mem_cons.mp hother with rfl | hother
        · obtain ⟨after, rfl⟩ := hfirst
          exact ⟨[], after, rfl⟩
        · obtain ⟨before, after, rfl⟩ := hothers other hother
          exact ⟨c :: before, after, rfl⟩
    · cases hrest : splitFrom separator (n.next c) t with
      | nil =>
        rw [hrest] at h
        cases h
        exact ⟨⟨t, rfl⟩, fun _ hother => absurd hother List.not_mem_nil⟩
      | cons first others =>
        obtain ⟨hfirst, hothers⟩ := ih hrest
        rw [hrest] at h
        cases h
        refine ⟨List.cons_prefix_cons.mpr ⟨rfl, hfirst⟩, fun other hother => ?_⟩
        obtain ⟨before, after, rfl⟩ := hothers other hother
        exact ⟨c :: before, after, rfl⟩

theorem passage_of_mem_splitTop {separator : Char} (hseparator : isWord separator = false)
    (h : u ∈ splitTop separator t) : Passage u t := by
  unfold splitTop at h
  cases hparts : splitFrom separator {} t with
  | nil =>
    rw [hparts] at h
    cases h
  | cons first others =>
    obtain ⟨hfirst, hothers⟩ := splitFrom_spec hparts
    rw [hparts] at h
    rcases List.mem_cons.mp h with rfl | h
    · exact .initial hfirst
    · obtain ⟨before, after, rfl⟩ := hothers u h
      exact .behind hseparator before u after

end Passages

/-! ### Names that are applied -/

/-- A name stands in a text, with something behind it that is no part of a word. -/
def Applied (name t : Text) : Prop := isName name = true ∧ ∃ c rest, isWord c = false ∧ Passage (name ++ c :: rest) t

variable {name u t : Text}

theorem Applied.trans (h : Applied name u) (h' : Passage u t) : Applied name t := by
  obtain ⟨hname, c, rest, hc, hpassage⟩ := h
  exact ⟨hname, c, rest, hc, hpassage.trans h'⟩

/-- **A name that is applied is one of the names of the text.** -/
theorem mem_names_of_applied (h : Applied name t) : name ∈ names t := by
  obtain ⟨hname, c, rest, hc, before, after, rfl, hloose⟩ := h
  have hparts : ∀ d ∈ name, isWord d = true := fun d hd => isWord_of_isNamePart (isNamePart_of_mem_name hname hd)
  have hne : name ≠ [] := by
    rintro rfl
    cases hname
  have hbreak : ∀ b ∈ before.getLast?, ∀ d ∈ (name ++ c :: (rest ++ after)).head?, isWord b ≠ isWord d := by
    intro b hb d hd
    rw [List.head?_append_of_ne_nil _ hne] at hd
    have hd' := List.mem_of_mem_head? hd
    rw [hparts d hd', hloose b hb d (by rwa [List.head?_append_of_ne_nil _ hne]) (isNamePart_of_mem_name hname hd')]
    exact Bool.false_ne_true
  have hruns : runs (before ++ (name ++ c :: rest) ++ after) = runs before ++ name :: runs (c :: (rest ++ after)) := by
    rw [List.append_assoc, List.append_assoc, List.cons_append, runs_append hbreak,
      runs_append_word hne hparts fun d hd => by cases hd; exact hc]
  unfold names
  rw [hruns]
  exact List.mem_filter.mpr ⟨List.mem_append_right _ List.mem_cons_self, hname⟩

end Flowchart.Text
