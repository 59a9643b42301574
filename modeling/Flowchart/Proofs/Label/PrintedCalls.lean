import Flowchart.Code.Recovery
import Flowchart.Proofs.Callees
import Flowchart.Proofs.Label.Spellings
import Flowchart.Proofs.Text.Cutting

/-!
# Calls that are printed

The code for a call has its name, and in parentheses its arguments with a comma and a blank between any two of them.
The blanks that were on the label are gone, be they in front of the parenthesis or around an argument, and yet it is the
same call: every argument is balanced, and covers the commas that are in it.

* `Balanced.trim`, `Whole.trim` — the margins of a text have no part in what it opens and closes.
* `Literal.whole_of_mem_arguments`, `Literal.arguments_ne` — the arguments that are found in parentheses.
* **`Literal.call?_printed`** — a call that was read is read again from its code.
-/

namespace Flowchart

/-! ### Margins -/

namespace Text

variable {separator : Char} {t : Text}

/-- A text with its margins. -/
theorem exists_margins (t : Text) :
    ∃ first last, t = first ++ (trim t ++ last) ∧ (∀ c ∈ first, isBlank c = true) ∧ ∀ c ∈ last, isBlank c = true := by
  obtain ⟨last, hlast, hblank⟩ := exists_blanks_trimEnd (trimStart t)
  refine ⟨t.takeWhile isBlank, last, ?_, fun c hc => List.mem_takeWhile_imp hc, hblank⟩
  rw [trim, ← hlast, trimStart, List.takeWhile_append_dropWhile]

/-- **A balanced text is balanced without its margins.** -/
theorem Balanced.trim (h : Balanced t) : Balanced (trim t) := by
  obtain ⟨first, last, ht, hfirst, hlast⟩ := exists_margins t
  have hclosed := h.through?_eq
  rw [ht, Nesting.through?_append, Nesting.through?_blanks hfirst, Option.bind_some, Nesting.through?_append] at hclosed
  obtain ⟨n, hthrough, hend⟩ := Option.bind_eq_some_iff.mp hclosed
  rw [Nesting.through?_blanks hlast] at hend
  cases hend
  exact balanced_of_through? hthrough

/-- A text that is not cut is not cut without its margins. -/
theorem Whole.trim (h : Whole separator t) : Whole separator (trim t) where
  closed := (balanced_of_through? h.closed).trim.through?_eq
  covered := by
    obtain ⟨first, last, ht, hfirst, -⟩ := exists_margins t
    have hcovered := h.covered
    rw [ht, isCovered_append, Nesting.foldl_next (Nesting.through?_blanks hfirst), isCovered_append, Bool.and_eq_true,
      Bool.and_eq_true] at hcovered
    exact hcovered.2.1

end Text

/-! ### Arguments -/

namespace Literal

variable {t inner argument : Text}

/-- **The arguments in balanced text** have no margins, and none is cut when it stands among others. -/
theorem whole_of_mem_arguments (hinner : Text.Balanced inner) (h : argument ∈ arguments inner) :
    Text.Whole ',' argument ∧ Text.trim argument = argument := by
  unfold arguments at h
  split at h
  · cases h
  · obtain ⟨part, hpart, rfl⟩ := List.mem_map.mp h
    exact ⟨(hinner.whole_of_mem_splitTop rfl hpart).trim, Text.trim_trim part⟩

/-- A single argument is not empty. -/
theorem arguments_ne (hinner : Text.trim inner = inner) : arguments inner ≠ [[]] := by
  intro h
  unfold arguments at h
  split at h
  · cases h
  · next hempty =>
    obtain ⟨part, hpart, htrim⟩ := List.map_eq_singleton_iff.mp h
    -- What is not cut is the only part, and it has no margins to lose.
    have hwhole := Text.intercalate_splitFrom ',' {} inner
    rw [← Text.splitTop, hpart, List.intercalate_singleton] at hwhole
    rw [hwhole, hinner] at htrim
    rw [htrim] at hempty
    exact hempty rfl

/-! ### Calls -/

/-- **Calls survive printing.**  What is printed for a call that was read is read as the same call. -/
theorem call?_printed {c : Call} (h : call? t = some c) :
    call? (Recovery.callCode (String.ofList c.name) c.arguments) = some c := by
  obtain ⟨hname, -, inner, -, -, henclosed, harguments⟩ := eq_of_call h
  obtain ⟨hinner, -⟩ := Text.enclosed?_eq_some_iff.mp henclosed
  have htext : Recovery.callCode (String.ofList c.name) c.arguments =
      c.name ++ '(' :: (", ".toList.intercalate c.arguments ++ [')']) := by
    simp [Recovery.callCode]
  rw [htext]
  refine call?_spelled hname ?_ fun argument hargument => ?_
  · rw [harguments]
    exact arguments_ne (Text.trim_trim inner)
  · rw [harguments] at hargument
    exact whole_of_mem_arguments hinner.trim hargument

/-- A call with an empty argument, a nested call, and a comma and a parenthesis in a quotation. -/
theorem call?_printed_nested :
    call? "f ( g(1,(2)) ,, \",)\" )".toList =
      some ⟨"f".toList, ["g(1,(2))".toList, [], "\",)\"".toList]⟩ ∧
    Recovery.callCode "f" ["g(1,(2))".toList, [], "\",)\"".toList] = "f(g(1,(2)), , \",)\")".toList ∧
    call? (Recovery.callCode "f" ["g(1,(2))".toList, [], "\",)\"".toList]) =
      some ⟨"f".toList, ["g(1,(2))".toList, [], "\",)\"".toList]⟩ := by
  have hread : call? "f ( g(1,(2)) ,, \",)\" )".toList =
      some ⟨"f".toList, ["g(1,(2))".toList, [], "\",)\"".toList]⟩ := by decide +kernel
  have hagain := call?_printed hread
  dsimp only at hagain
  rw [String.ofList_toList] at hagain
  exact ⟨hread, by decide +kernel, hagain⟩

end Literal

end Flowchart
