import Flowchart.Proofs.Text.Balance

/-!
# Texts cut at separators

A text is cut at the separators that stand outside of its parentheses and quotations.  Whatever the text is, a cut is
made only where the reader is at the top level, so every part is read by itself as it was read in its place.

* `isCovered_eq_true_iff`, `whole_iff` — separators that are not cut at, told by what stands in front of them.
* `intercalate_splitFrom` — no character is lost.
* `isCovered_of_splitFrom`, `through?_of_splitFrom` — in no part there is a place left to cut at, and the parts of a
  balanced text are balanced; `Balanced.whole_of_mem_splitTop` says both.
* **`splitTop_parts`** — cutting undoes joining, joining undoes cutting, and parts are not cut again.
-/

namespace Flowchart.Text

variable {separator : Char} {n : Nesting} {t part : Text} {parts : List Text}

/-! ### Separators that are not cut at -/

/-- No separator in the text is one to cut at: in front of each of them something is open. -/
theorem isCovered_eq_true_iff : isCovered separator n t = true ↔
    ∀ before after, t = before ++ separator :: after → (before.foldl Nesting.next n).isTop = false := by
  induction t generalizing n with
  | nil => simp [isCovered]
  | cons c t ih =>
    rw [isCovered, Bool.and_eq_true, ih]
    constructor
    · rintro ⟨hfirst, hrest⟩ before after htext
      cases before with
      | nil =>
        obtain ⟨rfl, -⟩ := List.cons.inj htext
        simpa using hfirst
      | cons d before =>
        rw [List.cons_append] at htext
        obtain ⟨rfl, hbehind⟩ := List.cons.inj htext
        exact hrest before after hbehind
    · intro h
      refine ⟨?_, fun before after htext => h (c :: before) after (by rw [htext, List.cons_append])⟩
      by_cases hc : c = separator
      · have htop : n.isTop = false := h [] t (by rw [hc, List.nil_append])
        simp [htop]
      · simp [hc]

/-- A beginning of a text that closes what it opens is balanced just if the reader is at the top level behind it. -/
theorem balanced_iff_isTop {before after : Text} (h : Nesting.through? {} (before ++ after) = some {}) :
    Balanced before ↔ (before.foldl Nesting.next {}).isTop = true := by
  rw [Nesting.through?_append] at h
  obtain ⟨n, hbefore, -⟩ := Option.bind_eq_some_iff.mp h
  rw [balanced_iff_through?, hbefore, Nesting.foldl_next hbefore]
  constructor
  · rintro ⟨⟩
    rfl
  · intro htop
    rw [Nesting.eq_of_isTop htop]

/-- **Texts that are not cut**: they are balanced, and no separator has a balanced text in front of it. -/
theorem whole_iff : Whole separator t ↔
    Balanced t ∧ ∀ before after, t = before ++ separator :: after → ¬Balanced before := by
  constructor
  · rintro ⟨hclosed, hcovered⟩
    refine ⟨balanced_of_through? hclosed, fun before after htext => ?_⟩
    rw [htext] at hclosed
    rw [balanced_iff_isTop hclosed, isCovered_eq_true_iff.mp hcovered before after htext]
    exact Bool.false_ne_true
  · rintro ⟨hbalanced, hinside⟩
    refine ⟨hbalanced.through?_eq, isCovered_eq_true_iff.mpr fun before after htext => ?_⟩
    have hclosed := hbalanced.through?_eq
    rw [htext] at hclosed
    rw [← Bool.not_eq_true, ← balanced_iff_isTop hclosed]
    exact hinside before after htext

/-! ### The parts of a text -/

/-- **With the separators between them, the parts are the text.** -/
theorem intercalate_splitFrom (separator : Char) (n : Nesting) (t : Text) :
    [separator].intercalate (splitFrom separator n t) = t := by
  induction t generalizing n with
  | nil => rfl
  | cons c t ih =>
    rw [splitFrom]
    split
    · next hcut =>
      obtain ⟨rfl, -⟩ : c = separator ∧ _ := by simpa [and_assoc] using hcut
      obtain ⟨part, parts, hparts⟩ := exists_splitFrom c n t
      have hrest := ih n
      rw [hparts] at hrest ⊢
      rw [List.intercalate_cons_cons, hrest]
      rfl
    · obtain ⟨part, parts, hparts⟩ := exists_splitFrom separator (n.next c) t
      have hrest := ih (n.next c)
      rw [hparts] at hrest ⊢
      rw [← hrest]
      cases parts with
      | nil => rw [consFirst, List.intercalate_singleton, List.intercalate_singleton]
      | cons second parts =>
        rw [consFirst, List.intercalate_cons_cons, List.intercalate_cons_cons]
        rfl

/-- **In no part there is a separator left to cut at.**  The first part is read from where the text is, every other one
from the top level. -/
theorem isCovered_of_splitFrom (hseparator : Nesting.isDelimiter separator = false)
    (h : splitFrom separator n t = part :: parts) :
    isCovered separator n part = true ∧ ∀ other ∈ parts, isCovered separator {} other = true := by
  induction t generalizing n part parts with
  | nil =>
    cases h
    exact ⟨rfl, fun _ hother => absurd hother List.not_mem_nil⟩
  | cons c t ih =>
    rw [splitFrom] at h
    split at h
    · next hcut =>
      obtain ⟨⟨rfl, htop⟩, -⟩ : (c = separator ∧ n.isTop = true) ∧ _ := by simpa using hcut
      obtain rfl := Nesting.eq_of_isTop htop
      cases h
      obtain ⟨first, others, hparts⟩ := exists_splitFrom c {} t
      rw [hparts]
      exact ⟨rfl, List.forall_mem_cons.mpr (ih hparts)⟩
    · next hkeep =>
      obtain ⟨first, others, hparts⟩ := exists_splitFrom separator (n.next c) t
      obtain ⟨hfirst, hothers⟩ := ih hparts
      rw [hparts] at h
      cases h
      refine ⟨?_, hothers⟩
      rw [isCovered, hfirst, Bool.and_true]
      by_cases hc : c = separator
      · subst hc
        have htop : n.isTop = false := by simpa [hseparator] using hkeep
        simp [htop]
      · simp [hc]

/-- The parts of a text that closes what it opens close what they open. -/
theorem through?_of_splitFrom (hseparator : Nesting.isDelimiter separator = false) (hclosed : n.through? t = some {})
    (h : splitFrom separator n t = part :: parts) :
    n.through? part = some {} ∧ ∀ other ∈ parts, Nesting.through? {} other = some {} := by
  induction t generalizing n part parts with
  | nil =>
    cases h
    exact ⟨hclosed, fun _ hother => absurd hother List.not_mem_nil⟩
  | cons c t ih =>
    have hrest := Nesting.through?_of_cons hclosed
    rw [splitFrom] at h
    split at h
    · next hcut =>
      obtain ⟨⟨rfl, htop⟩, -⟩ : (c = separator ∧ n.isTop = true) ∧ _ := by simpa using hcut
      obtain rfl := Nesting.eq_of_isTop htop
      rw [Nesting.next_of_not_delimiter hseparator] at hrest
      cases h
      obtain ⟨first, others, hparts⟩ := exists_splitFrom c {} t
      rw [hparts]
      exact ⟨rfl, List.forall_mem_cons.mpr (ih hrest hparts)⟩
    · obtain ⟨first, others, hparts⟩ := exists_splitFrom separator (n.next c) t
      obtain ⟨hfirst, hothers⟩ := ih hrest hparts
      rw [hparts] at h
      cases h
      refine ⟨?_, hothers⟩
      unfold Nesting.through? at hclosed ⊢
      split at hclosed
      · cases hclosed
      · next hpass => rwa [if_neg hpass]

/-- **The parts of a balanced text** are balanced and not cut again. -/
theorem Balanced.whole_of_mem_splitTop (ht : Balanced t) (hseparator : Nesting.isDelimiter separator = false)
    (h : part ∈ splitTop separator t) : Whole separator part := by
  obtain ⟨first, others, hparts⟩ := exists_splitFrom separator {} t
  obtain ⟨hclosed, hcloseds⟩ := through?_of_splitFrom hseparator ht.through?_eq hparts
  obtain ⟨hcovered, hcovereds⟩ := isCovered_of_splitFrom hseparator hparts
  rw [splitTop, hparts] at h
  rcases List.mem_cons.mp h with rfl | h
  · exact ⟨hclosed, hcovered⟩
  · exact ⟨hcloseds part h, hcovereds part h⟩

/-- **Cutting and joining.**  With a separator that is no delimiter, the parts of any text are the text when they are
joined, and none of them is cut again.  Parts that are balanced, with separators only between parentheses or in
quotations, are what the text is cut into when they are joined. -/
theorem splitTop_parts (hseparator : Nesting.isDelimiter separator = false) :
    (∀ t, [separator].intercalate (splitTop separator t) = t) ∧
    (∀ t, ∀ part ∈ splitTop separator t, splitTop separator part = [part]) ∧
    ∀ parts, parts ≠ [] →
      (∀ part ∈ parts, Balanced part ∧ ∀ before after, part = before ++ separator :: after → ¬Balanced before) →
      splitTop separator ([separator].intercalate parts) = parts := by
  refine ⟨intercalate_splitFrom separator {}, fun t part hpart => ?_, fun parts hne hparts => ?_⟩
  · obtain ⟨first, others, hcut⟩ := exists_splitFrom separator {} t
    have hcovered : ∀ other ∈ first :: others, isCovered separator {} other = true :=
      List.forall_mem_cons.mpr (isCovered_of_splitFrom hseparator hcut)
    rw [splitTop, hcut] at hpart
    exact splitFrom_of_isCovered (hcovered part hpart)
  · exact splitTop_intercalate hseparator hne fun part hpart => whole_iff.mpr (hparts part hpart)

/-- A text with a parenthesis that closes nothing and a quotation without an end, and parts of which one is empty. -/
theorem splitTop_parts_unpaired :
    Nesting.isDelimiter ',' = false ∧
    splitTop ',' "a),(b,\")\",c),\"d,e".toList = ["a)".toList, "(b,\")\",c)".toList, "\"d,e".toList] ∧
    splitTop ',' "\"d,e".toList = ["\"d,e".toList] ∧
    splitTop ',' ([','].intercalate ["f(1,(2))".toList, [], "\"(,\"".toList]) =
      ["f(1,(2))".toList, [], "\"(,\"".toList] := by
  have hcomma : Nesting.isDelimiter ',' = false := rfl
  have hsplit : splitTop ',' "a),(b,\")\",c),\"d,e".toList =
      ["a)".toList, "(b,\")\",c)".toList, "\"d,e".toList] := by decide
  obtain ⟨-, hparts, hjoin⟩ := splitTop_parts hcomma
  refine ⟨hcomma, hsplit, hparts _ _ (by rw [hsplit]; decide), hjoin _ (List.cons_ne_nil _ _) ?_⟩
  have hwhole : ∀ part ∈ ["f(1,(2))".toList, [], "\"(,\"".toList], Whole ',' part := by decide
  exact fun part hpart => whole_iff.mp (hwhole part hpart)

end Flowchart.Text
