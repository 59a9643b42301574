import Flowchart.Proofs.Condition.Scanning

/-!
# Margins of texts that grow

A reader of labels trims a text, takes something away from it, and trims what is left.  This file says what remains of a
margin when a text is trimmed twice, and what becomes of it when something is added behind the text.

* `trim_trim`, `trim_trimEnd_of_prefix` — what is trimmed has no margins, and nor has its beginning when it is trimmed.
* `trimStart_append_of_ne_nil`, `trimStart_append_of_eq_nil` — the first margin of a text with something behind it.
* `trimEnd_concat`, `trimEnd_append_blanks` — the last margin of a text with something behind it.
-/

namespace Flowchart.Text

variable {t u m : Text} {c : Char}

/-! ### The first margin -/

/-- A trimmed text does not begin with a blank, in the form in which beginnings are put together. -/
theorem head?_trimStart (t : Text) : ∀ c ∈ (trimStart t).head?, isBlank c = false := by
  intro c hc
  cases h : trimStart t with
  | nil =>
    rw [h] at hc
    cases hc
  | cons d r =>
    rw [h] at hc
    cases hc
    exact head_trimStart h

/-- Nothing is taken away in front of a text that begins with no blank. -/
theorem trimStart_eq_self (h : ∀ c ∈ t.head?, isBlank c = false) : trimStart t = t :=
  trimStart_append (m := []) (fun _ hc => absurd hc List.not_mem_nil) h

theorem trimStart_blanks (hm : ∀ c ∈ m, isBlank c = true) : trimStart m = [] := List.dropWhile_eq_nil_iff.mpr hm

theorem suffix_trimStart (t : Text) : trimStart t <:+ t := List.dropWhile_suffix _

theorem trimStart_trimStart (t : Text) : trimStart (trimStart t) = trimStart t := List.dropWhile_idempotent ..

/-- The first margin is the same, whatever stands behind a text that is more than a margin. -/
theorem trimStart_append_of_ne_nil (h : trimStart t ≠ []) (u : Text) : trimStart (t ++ u) = trimStart t ++ u := by
  unfold trimStart at h ⊢
  rw [List.dropWhile_append, if_neg (by rwa [List.isEmpty_iff])]

/-- Behind a text that is all margin, the margin goes on. -/
theorem trimStart_append_of_eq_nil (h : trimStart t = []) (u : Text) : trimStart (t ++ u) = trimStart u := by
  unfold trimStart at h ⊢
  rw [List.dropWhile_append, h]
  rfl

/-- A margin is taken off from the first text only if it is taken off before the second one is put behind it. -/
theorem trimStart_trimStart_append (t u : Text) : trimStart (trimStart t ++ u) = trimStart (t ++ u) := by
  by_cases h : trimStart t = []
  · rw [trimStart_append_of_eq_nil h, h, List.nil_append]
  · rw [trimStart_append_of_ne_nil h, trimStart_append_of_ne_nil (by rwa [trimStart_trimStart]), trimStart_trimStart]

/-! ### The last margin -/

/-- A character that is put behind a text belongs to its last margin, or ends it. -/
theorem trimEnd_concat (t : Text) (c : Char) : trimEnd (t ++ [c]) = if isBlank c then trimEnd t else t ++ [c] :=
  List.rdropWhile_concat ..

theorem trimEnd_trimEnd (t : Text) : trimEnd (trimEnd t) = trimEnd t := List.rdropWhile_idempotent ..

/-- A trimmed text does not end with a blank. -/
theorem getLast?_trimEnd (t : Text) : ∀ c ∈ (trimEnd t).getLast?, isBlank c = false := by
  intro c hc
  unfold trimEnd at hc
  rw [List.getLast?_reverse] at hc
  exact head?_trimStart t.reverse c hc

theorem trimEnd_append_blanks (hm : ∀ c ∈ m, isBlank c = true) : trimEnd (t ++ m) = trimEnd t := by
  induction m using List.reverseRecOn with
  | nil => rw [List.append_nil]
  | append_singleton m c ih =>
    rw [← List.append_assoc, trimEnd_concat, if_pos (hm c (by simp)), ih fun d hd => hm d (List.mem_append_left _ hd)]

/-- What ends with no blank stays when the text goes on and is trimmed. -/
theorem prefix_trimEnd_of_prefix (h : u <+: t) (hlast : ∀ c ∈ u.getLast?, isBlank c = false) : u <+: trimEnd t := by
  obtain ⟨more, rfl⟩ := h
  induction more using List.reverseRecOn with
  | nil =>
    rw [List.append_nil, trimEnd_eq_self hlast]
  | append_singleton more c ih =>
    rw [← List.append_assoc, trimEnd_concat]
    split
    · exact ih
    · rw [List.append_assoc]
      exact List.prefix_append _ _

/-! ### Both margins -/

/-- It makes no difference which margin is taken off first. -/
theorem trimStart_trimEnd (t : Text) : trimStart (trimEnd t) = trim t := by
  obtain ⟨m, ht, hm⟩ := exists_blanks_trimEnd t
  by_cases hnil : trimStart (trimEnd t) = []
  · have hstart : trimStart t = [] := by
      rw [ht, trimStart_append_of_eq_nil hnil, trimStart_blanks hm]
    rw [trim, hstart, hnil]
    rfl
  · -- The text that is left ends as the text does that was trimmed first.
    have hstart : trimStart t = trimStart (trimEnd t) ++ m := by
      rw [← trimStart_append_of_ne_nil hnil, ← ht]
    rw [trim, hstart, trimEnd_append hm]
    intro c hc
    refine getLast?_trimEnd t c ?_
    obtain ⟨first, hfirst⟩ := suffix_trimStart (trimEnd t)
    rw [← hfirst, List.getLast?_append_of_ne_nil _ hnil]
    exact hc

/-- Blanks behind a text belong to its last margin. -/
theorem trim_append_blanks (hm : ∀ c ∈ m, isBlank c = true) (t : Text) : trim (t ++ m) = trim t := by
  rw [← trimStart_trimEnd, trimEnd_append_blanks hm, trimStart_trimEnd]

/-- Blanks in front of a text belong to its first margin. -/
theorem trim_blanks_append (hm : ∀ c ∈ m, isBlank c = true) (t : Text) : trim (m ++ t) = trim t := by
  rw [trim, trimStart_append_of_eq_nil (trimStart_blanks hm), trim]

/-- The beginning of a trimmed text has no margins when its end is trimmed. -/
theorem trim_trimEnd_of_prefix (h : u <+: trim t) : trim (trimEnd u) = trimEnd u := by
  refine trim_eq_of_edges (fun c hc => ?_) (getLast?_trimEnd u)
  have hprefix : trimEnd u <+: trimStart t := (prefix_trimEnd u).trans (h.trans (prefix_trimEnd _))
  obtain ⟨more, hmore⟩ := hprefix
  refine head?_trimStart t c ?_
  rw [← hmore, List.head?_append, Option.mem_def.mp hc]
  rfl

theorem trim_trim (t : Text) : trim (trim t) = trim t := by
  have hend := trim_trimEnd_of_prefix (u := trim t) (t := t) (List.prefix_refl _)
  rwa [show trimEnd (trim t) = trim t from trimEnd_trimEnd _] at hend

end Flowchart.Text
