import Flowchart.Proofs.Text.Margins

/-!
# Texts put together with separators

Where a text is cut at separators, those that stand between parentheses or in quotations do not count.  So a text can be
put together from pieces and taken apart again, if each piece closes what it opens and covers the separators in it.

* `Text.isCovered`, `Text.Whole` — the pieces that are not cut.
* **`splitTop_intercalate`** — pieces with separators between them are cut into these pieces.
* `map_trim_splitTop_trim` — the margins of a text that is cut make no difference to the pieces without theirs.
* **`map_trim_splitTop_spaced`**, `map_trim_splitOn_spaced` — spaces behind the separators make none, either.
* `enclosed?_append_eq_none` — a text is not enclosed in parentheses if something stands behind a piece that it begins
  with.
-/

namespace Flowchart

/-- Behind its first character, a text goes on to the same nesting. -/
theorem Nesting.through?_of_cons {n n' : Nesting} {c : Char} {t : Text} (h : n.through? (c :: t) = some n') :
    (n.next c).through? t = some n' := by
  unfold through? at h
  split at h
  · cases h
  · exact h

/-- Where every parenthesis that is closed was opened, the nesting behind a text is that of a reader who goes on anyway. -/
theorem Nesting.foldl_next {n n' : Nesting} {t : Text} (h : n.through? t = some n') : t.foldl next n = n' := by
  induction t generalizing n with
  | nil =>
    cases h
    rfl
  | cons c t ih => exact ih (through?_of_cons h)

namespace Text

variable {separator : Char} {n n' : Nesting} {t u m r : Text}

/-! ### Pieces -/

/-- Every separator in the text stands between parentheses or in a quotation, if the text begins at a nesting. -/
def isCovered (separator : Char) : Nesting → Text → Bool
  | _, [] => true
  | n, c :: t => (c != separator || !n.isTop) && isCovered separator (n.next c) t

/-- A text that closes what it opens, and in which no separator counts. -/
structure Whole (separator : Char) (t : Text) : Prop where
  closed : Nesting.through? {} t = some {}
  covered : isCovered separator {} t = true

instance (separator : Char) (t : Text) : Decidable (Whole separator t) :=
  decidable_of_iff (Nesting.through? {} t = some {} ∧ isCovered separator {} t = true)
    ⟨fun h => ⟨h.1, h.2⟩, fun h => ⟨h.1, h.2⟩⟩

theorem isCovered_of_not_mem (h : separator ∉ t) (n : Nesting) : isCovered separator n t = true := by
  induction t generalizing n with
  | nil => rfl
  | cons c t ih =>
    rw [List.mem_cons, not_or] at h
    rw [isCovered, ih h.2, Bool.and_true, Bool.or_eq_true]
    exact .inl (bne_iff_ne.mpr (Ne.symm h.1))

theorem isCovered_append (n : Nesting) (t u : Text) :
    isCovered separator n (t ++ u) = (isCovered separator n t && isCovered separator (t.foldl Nesting.next n) u) := by
  induction t generalizing n with
  | nil => rfl
  | cons c t ih => rw [List.cons_append, isCovered, ih, isCovered, Bool.and_assoc, List.foldl_cons]

theorem Whole.append (ht : Whole separator t) (hu : Whole separator u) : Whole separator (t ++ u) where
  closed := by
    rw [Nesting.through?_append, ht.closed]
    exact hu.closed
  covered := by
    rw [isCovered_append, ht.covered, Nesting.foldl_next ht.closed, hu.covered]
    rfl

/-- Blanks are a piece, for any separator that is no blank. -/
theorem whole_blanks (hseparator : isBlank separator = false) (hm : ∀ c ∈ m, isBlank c = true) :
    Whole separator m where
  closed := Nesting.through?_blanks hm
  covered := by
    refine isCovered_of_not_mem (fun hmem => ?_) {}
    rw [hm separator hmem] at hseparator
    cases hseparator

/-! ### Cutting -/

/-- Characters in front of a cut text belong to its first part. -/
theorem foldr_consFirst (t part : Text) (parts : List Text) :
    t.foldr consFirst (part :: parts) = (t ++ part) :: parts := by
  induction t with
  | nil => rfl
  | cons c t ih =>
    rw [List.foldr_cons, ih]
    rfl

/-- A text always has a first part. -/
theorem exists_splitFrom (separator : Char) (n : Nesting) (t : Text) :
    ∃ part parts, splitFrom separator n t = part :: parts := by
  cases t with
  | nil => exact ⟨[], [], rfl⟩
  | cons c t =>
    rw [splitFrom]
    split
    · exact ⟨_, _, rfl⟩
    · cases splitFrom separator (n.next c) t with
      | nil => exact ⟨_, _, rfl⟩
      | cons part parts => exact ⟨_, _, rfl⟩

/-- **A piece is not cut**, whatever follows it. -/
theorem splitFrom_append (hcovered : isCovered separator n t = true) (r : Text) :
    splitFrom separator n (t ++ r) = t.foldr consFirst (splitFrom separator (t.foldl Nesting.next n) r) := by
  induction t generalizing n with
  | nil => rfl
  | cons c t ih =>
    simp only [isCovered, Bool.and_eq_true, Bool.or_eq_true, bne_iff_ne, Bool.not_eq_true'] at hcovered
    have hkeep : ¬(decide (c = separator) && n.isTop && !Nesting.isDelimiter c) = true := by
      rcases hcovered.1 with hne | htop
      · simp [hne]
      · simp [htop]
    rw [List.cons_append, splitFrom, if_neg hkeep, ih hcovered.2, List.foldr_cons, List.foldl_cons]

/-- With nothing behind it, it is the only part. -/
theorem splitFrom_of_isCovered (hcovered : isCovered separator n t = true) : splitFrom separator n t = [t] := by
  have hsplit := splitFrom_append hcovered []
  rwa [List.append_nil, splitFrom, foldr_consFirst, List.append_nil] at hsplit

/-- Without separators nothing is cut. -/
theorem splitFrom_of_not_mem (h : separator ∉ t) : splitFrom separator n t = [t] :=
  splitFrom_of_isCovered (isCovered_of_not_mem h n)

/-- Behind a piece a text is cut at a separator. -/
theorem Whole.splitTop_append (h : Whole separator t) (hseparator : Nesting.isDelimiter separator = false) (r : Text) :
    splitTop separator (t ++ separator :: r) = t :: splitTop separator r := by
  have hcut : splitFrom separator {} (separator :: r) = [] :: splitFrom separator {} r := by
    rw [splitFrom, if_pos (by simp [Nesting.isTop, hseparator])]
  rw [splitTop, splitFrom_append h.covered, Nesting.foldl_next h.closed, hcut, foldr_consFirst, List.append_nil]
  rfl

/-- **Pieces with separators between them** are cut into these pieces. -/
theorem splitTop_intercalate (hseparator : Nesting.isDelimiter separator = false) {pieces : List Text}
    (hne : pieces ≠ []) (h : ∀ piece ∈ pieces, Whole separator piece) :
    splitTop separator ([separator].intercalate pieces) = pieces := by
  induction pieces with
  | nil => exact absurd rfl hne
  | cons first rest ih =>
    have hfirst := h first List.mem_cons_self
    cases rest with
    | nil =>
      rw [List.intercalate_singleton]
      exact splitFrom_of_isCovered hfirst.covered
    | cons second rest =>
      rw [List.intercalate_cons_cons, List.append_assoc, List.singleton_append,
        hfirst.splitTop_append hseparator,
        ih (List.cons_ne_nil second rest) fun piece hpiece => h piece (List.mem_cons_of_mem first hpiece)]

/-- A blank behind every separator is a blank in front of every piece but the first one. -/
theorem intercalate_spaced (first : Text) (rest : List Text) :
    [separator, ' '].intercalate (first :: rest) = [separator].intercalate (first :: rest.map (' ' :: ·)) := by
  induction rest generalizing first with
  | nil => rw [List.map_nil, List.intercalate_singleton, List.intercalate_singleton]
  | cons second rest ih =>
    rw [List.map_cons, List.intercalate_cons_cons, List.intercalate_cons_cons, ih second]
    cases rest with
    | nil => simp
    | cons third rest => simp [List.intercalate_cons_cons]

/-! ### Margins of texts that are cut -/

/-- Only the last margin of its tail counts for the last margin of a text. -/
theorem trimEnd_cons_congr {c : Char} (h : trimEnd t = trimEnd u) : trimEnd (c :: t) = trimEnd (c :: u) := by
  have hcons : ∀ v : Text, trimEnd (c :: v) = trimEnd (c :: trimEnd v) := by
    intro v
    obtain ⟨m, hv, hm⟩ := exists_blanks_trimEnd v
    have happend := trimEnd_append_blanks (t := c :: trimEnd v) hm
    rwa [List.cons_append, ← hv] at happend
  rw [hcons t, hcons u, h]

/-- The last margin of a text that is cut belongs to its last part. -/
theorem map_trimEnd_splitFrom (hseparator : isBlank separator = false) (hm : ∀ c ∈ m, isBlank c = true) :
    (splitFrom separator n (t ++ m)).map trimEnd = (splitFrom separator n t).map trimEnd := by
  induction t generalizing n with
  | nil =>
    have hmem : separator ∉ m := by
      intro hin
      rw [hm separator hin] at hseparator
      cases hseparator
    have hblank : trimEnd m = trimEnd [] := trimEnd_append_blanks (t := []) hm
    rw [List.nil_append, splitFrom_of_not_mem hmem, splitFrom, List.map_singleton, List.map_singleton, hblank]
  | cons c t ih =>
    rw [List.cons_append, splitFrom, splitFrom]
    split
    · rw [List.map_cons, List.map_cons, ih]
    · obtain ⟨part, parts, hparts⟩ := exists_splitFrom separator (n.next c) (t ++ m)
      obtain ⟨part', parts', hparts'⟩ := exists_splitFrom separator (n.next c) t
      have hsame := ih (n := n.next c)
      rw [hparts, hparts', List.map_cons, List.map_cons, List.cons.injEq] at hsame
      rw [hparts, hparts']
      simp only [consFirst, List.map_cons, trimEnd_cons_congr hsame.1, hsame.2]

/-- **The margins of a text that is cut** make no difference to its parts without theirs. -/
theorem map_trim_splitTop_trim (hseparator : isBlank separator = false) (t : Text) :
    (splitTop separator (trim t)).map trim = (splitTop separator t).map trim := by
  have hfirst : (splitTop separator t).map trim = (splitTop separator (trimStart t)).map trim := by
    have hm : ∀ c ∈ t.takeWhile isBlank, isBlank c = true := fun c hc => List.mem_takeWhile_imp hc
    have hwhole := whole_blanks hseparator hm
    have hsplit := splitFrom_append hwhole.covered (trimStart t)
    rw [Nesting.foldl_next hwhole.closed, trimStart, List.takeWhile_append_dropWhile] at hsplit
    obtain ⟨part, parts, hparts⟩ := exists_splitFrom separator {} (trimStart t)
    rw [splitTop, hsplit, splitTop, ← trimStart, hparts, foldr_consFirst, List.map_cons, List.map_cons,
      trim_blanks_append hm]
  have hlast : (splitTop separator (trimStart t)).map trim = (splitTop separator (trim t)).map trim := by
    obtain ⟨m, ht, hm⟩ := exists_blanks_trimEnd (trimStart t)
    have hends : (splitTop separator (trimStart t)).map trimEnd = (splitTop separator (trim t)).map trimEnd := by
      have hsplit := map_trimEnd_splitFrom (n := {}) (t := trim t) hseparator hm
      rwa [← show trimStart t = trim t ++ m from ht] at hsplit
    have htrim : trim = trimStart ∘ trimEnd := funext fun part => (trimStart_trimEnd part).symm
    rw [htrim, ← List.map_map, ← List.map_map, ← htrim, hends]
  rw [hfirst, hlast]

/-- A space is blank. -/
theorem blanks_space : ∀ c ∈ [' '], isBlank c = true := by
  intro c hc
  rw [List.mem_singleton.mp hc]
  rfl

/-- Spaces in front of pieces without margins are taken off again. -/
theorem map_trim_spaced {pieces : List Text} (h : ∀ piece ∈ pieces, trim piece = piece) :
    (pieces.map (' ' :: ·)).map trim = pieces := by
  rw [List.map_map]
  refine (List.map_congr_left fun piece hpiece => ?_).trans (List.map_id pieces)
  exact (trim_blanks_append blanks_space piece).trans (h piece hpiece)

/-- **Pieces without margins**, with a space behind each separator, are what a text is cut into if margins do not
count. -/
theorem map_trim_splitTop_spaced (hdelimiter : Nesting.isDelimiter separator = false)
    (hblank : isBlank separator = false) {pieces : List Text} (hne : pieces ≠ [])
    (h : ∀ piece ∈ pieces, Whole separator piece ∧ trim piece = piece) :
    (splitTop separator (trim ([separator, ' '].intercalate pieces))).map trim = pieces := by
  obtain ⟨first, rest, rfl⟩ := List.exists_cons_of_ne_nil hne
  have hwhole : ∀ piece ∈ first :: rest.map (' ' :: ·), Whole separator piece := by
    intro piece hpiece
    rcases List.mem_cons.mp hpiece with rfl | hpiece
    · exact (h _ List.mem_cons_self).1
    · obtain ⟨part, hpart, rfl⟩ := List.mem_map.mp hpiece
      exact (whole_blanks hblank blanks_space).append (h part (List.mem_cons_of_mem first hpart)).1
  rw [map_trim_splitTop_trim hblank, intercalate_spaced, splitTop_intercalate hdelimiter (List.cons_ne_nil _ _) hwhole,
    List.map_cons, (h first List.mem_cons_self).2,
    map_trim_spaced fun part hpart => (h part (List.mem_cons_of_mem first hpart)).2]

/-- Where everything counts that separates, pieces are without separators. -/
theorem map_trim_splitOn_spaced (hspace : separator ≠ ' ') {pieces : List Text} (hne : pieces ≠ [])
    (h : ∀ piece ∈ pieces, trim piece = piece ∧ separator ∉ piece) :
    (([separator, ' '].intercalate pieces).splitOn separator).map trim = pieces := by
  obtain ⟨first, rest, rfl⟩ := List.exists_cons_of_ne_nil hne
  have hfree : ∀ piece ∈ first :: rest.map (' ' :: ·), separator ∉ piece := by
    intro piece hpiece
    rcases List.mem_cons.mp hpiece with rfl | hpiece
    · exact (h _ List.mem_cons_self).2
    · obtain ⟨part, hpart, rfl⟩ := List.mem_map.mp hpiece
      simp [hspace, (h part (List.mem_cons_of_mem first hpart)).2]
  rw [intercalate_spaced, List.splitOn_intercalate separator hfree (List.cons_ne_nil _ _), List.map_cons,
    (h first List.mem_cons_self).1, map_trim_spaced fun part hpart => (h part (List.mem_cons_of_mem first hpart)).1]

/-! ### Texts in parentheses -/

/-- Texts that close what they open can be put together with such a text between them. -/
theorem through?_intercalate (between : Text) (hbetween : Nesting.through? {} between = some {}) {pieces : List Text}
    (h : ∀ piece ∈ pieces, Nesting.through? {} piece = some {}) :
    Nesting.through? {} (between.intercalate pieces) = some {} := by
  induction pieces with
  | nil => rfl
  | cons first rest ih =>
    have hfirst := h first List.mem_cons_self
    have hrest := ih fun piece hpiece => h piece (List.mem_cons_of_mem first hpiece)
    cases rest with
    | nil => rwa [List.intercalate_singleton]
    | cons second rest =>
      rw [List.intercalate_cons_cons, Nesting.through?_append, Nesting.through?_append, hfirst, Option.bind_some,
        hbetween, Option.bind_some, hrest]

/-- A text that comes out of the parentheses in which it begins has the parenthesis in it that closes them. -/
theorem exists_close (h : n.deeper.through? t = some n') (hout : n'.depth = 0) :
    ∃ inner rest n'', t = inner ++ ')' :: rest ∧ n.through? inner = some n'' ∧ n''.isTop = true := by
  induction t generalizing n with
  | nil =>
    cases h
    cases hout
  | cons c t ih =>
    cases hc : c = ')' && !n.quoted && n.depth == 0 with
    | true =>
      simp only [Bool.and_eq_true, decide_eq_true_eq, Bool.not_eq_true', beq_iff_eq] at hc
      obtain ⟨⟨rfl, hquoted⟩, hdepth⟩ := hc
      exact ⟨[], t, n, rfl, rfl, by simp [Nesting.isTop, hquoted, hdepth]⟩
    | false =>
      have hnext := Nesting.through?_of_cons h
      rw [Nesting.next_deeper hc] at hnext
      obtain ⟨inner, rest, n'', rfl, hinner, htop⟩ := ih hnext
      refine ⟨c :: inner, rest, n'', rfl, ?_, htop⟩
      unfold Nesting.through?
      rw [if_neg (by rw [hc]; exact Bool.false_ne_true)]
      exact hinner

/-- **A text is not enclosed** in parentheses if something stands behind a beginning that closes what it opens. -/
theorem enclosed?_append_eq_none (h : Nesting.through? {} t = some {}) {c : Char} (hc : c ≠ '(') (r : Text) :
    enclosed? (t ++ c :: r) = none := by
  cases t with
  | nil =>
    unfold enclosed?
    split
    · next heq => exact absurd (List.cons.inj heq).1 hc
    · rfl
  | cons d t =>
    by_cases hd : d = '('
    · subst hd
      have hopen : (Nesting.deeper {}).through? t = some {} := Nesting.through?_of_cons h
      obtain ⟨inner, rest, n, rfl, hinner, htop⟩ := exists_close hopen rfl
      -- The parenthesis that closes the first one stands in front of what follows.
      have hclosing : closing 0 false ('(' :: ((inner ++ ')' :: rest) ++ c :: r)) =
          some ('(' :: inner, rest ++ c :: r) := by
        have hinside := closing_through hinner (')' :: (rest ++ c :: r))
        simp only [Nesting.isTop, Bool.and_eq_true, beq_iff_eq, Bool.not_eq_true'] at htop
        rw [closing, if_neg (by decide), if_pos (by decide), List.append_assoc, List.cons_append]
        show (closing (Nesting.deeper {}).depth _ _).map _ = _
        rw [hinside]
        simp [closing, Nesting.deeper, htop]
      unfold enclosed?
      rw [List.cons_append, hclosing]
      cases rest with
      | nil => rfl
      | cons _ _ => rfl
    · unfold enclosed?
      split
      · next heq => exact absurd (List.cons.inj heq).1 hd
      · rfl

end Text

end Flowchart
