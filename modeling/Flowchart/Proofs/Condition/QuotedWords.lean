import Flowchart.Proofs.Condition.Respelling
import Flowchart.Proofs.Text.Quotations

/-!
# Quotations in conditions for C

Translated to C, a condition is spelled otherwise, and its quotations should not be.  Two of the three things that are
done to it keep to this: a question mark is only taken off behind the quotations, and signs are only doubled outside of
them.  The words are looked for everywhere.

* `Code.isSpelled` — the three words for which there are signs.
* `Code.spellWords_quote` — words in front of a quotation mark and behind it are respelled apart.
* `Code.spellWords_eq_iff` — a text is left as it is exactly if it has none of the three words.
* `Code.respell_quote` — the first quotation of a text, respelled.
* `Code.quotations_respell` — words are respelled in quotations, and signs are not.
* **`Code.quotations_condition`** — the quotations of a translated condition.
-/

namespace Flowchart

/-! ### Margins -/

namespace Text

variable {t r : Text}

/-- A margin ends at a quotation mark. -/
theorem trimStart_quote (t r : Text) : trimStart (t ++ '"' :: r) = trimStart t ++ '"' :: r := by
  unfold trimStart
  rw [List.dropWhile_append]
  cases h : t.dropWhile isBlank with
  | nil => rfl
  | cons c u => rfl

theorem not_mem_blanks (h : ∀ c ∈ t, isBlank c = true) : '"' ∉ t := fun hmem => absurd (h '"' hmem) (by decide)

/-- Trimming takes off no quotation. -/
theorem Paired.trim (h : Paired t) : Paired (trim t) ∧ quotations (trim t) = quotations t := by
  have hstart : t.takeWhile isBlank ++ trimStart t = t := List.takeWhile_append_dropWhile
  have hmargin : '"' ∉ t.takeWhile isBlank := not_mem_blanks fun _ => List.mem_takeWhile_imp
  obtain ⟨blanks, hblanks, hall⟩ := exists_blanks_trimEnd (trimStart t)
  have hend : '"' ∉ blanks := not_mem_blanks hall
  have hpaired : Paired (trimStart t) := (paired_plain_append hmargin).mp (by rwa [hstart])
  have hsplit : trimStart t = Text.trim t ++ blanks := hblanks
  have htrim : Paired (Text.trim t) := (paired_append_plain hend).mp (by rwa [← hsplit])
  refine ⟨htrim, ?_⟩
  calc quotations (Text.trim t) = quotations (Text.trim t ++ blanks) := (quotations_append_plain htrim hend).symm
    _ = quotations (trimStart t) := congrArg quotations hsplit.symm
    _ = quotations (t.takeWhile isBlank ++ trimStart t) := (quotationsFrom_none_append hmargin _).symm
    _ = quotations t := congrArg quotations hstart

/-- Nor does a question mark that is dropped. -/
theorem Paired.question (h : Paired t) :
    Paired (Condition.question t) ∧ quotations (Condition.question t) = quotations t := by
  obtain ⟨htrim, hsame⟩ := h.trim
  unfold Condition.question
  dsimp only
  split
  · next hlast =>
    have hmark : '"' ∉ ['?'] := by decide
    have hsplit : (Text.trim t).dropLast ++ ['?'] = Text.trim t := List.dropLast_append_getLast? '?' hlast
    have hrest : Paired (Text.trim t).dropLast := (paired_append_plain hmark).mp (by rwa [hsplit])
    obtain ⟨hpaired, hquotations⟩ := hrest.trim
    refine ⟨hpaired, ?_⟩
    rw [hquotations, ← quotations_append_plain hrest hmark, hsplit, hsame]
  · exact ⟨htrim, hsame⟩

end Text

namespace Code

open Text (runs quotations Paired)

variable {before : Option Char} {p q r t : Text}

/-! ### Words -/

/-- One of the three words for which there are signs. -/
def isSpelled (run : Text) : Bool := run = "AND".toList || run = "OR".toList || run = "NOT".toList

theorem isSpelled_iff {run : Text} :
    isSpelled run = true ↔ run = "AND".toList ∨ run = "OR".toList ∨ run = "NOT".toList := by
  simp [isSpelled, or_assoc]

/-- The first word of a text, respelled. -/
theorem spellWords_append_word (hne : p ≠ []) (hword : ∀ c ∈ p, Text.isWord c = true) (hr : Ended r) :
    spellWords (p ++ r) =
      if p = "AND".toList then "&&".toList ++ spellWords r
      else if p = "OR".toList then "||".toList ++ spellWords r
      else if p = "NOT".toList then '!' :: Text.trimStart (spellWords r)
      else p ++ spellWords r := by
  unfold spellWords
  rw [Text.runs_append_word hne hword hr, spellRuns]

/-- A text that begins in a word begins with the whole of it. -/
theorem exists_word {c : Char} (hc : Text.isWord c = true) (t : Text) :
    ∃ w v, c :: t = w ++ v ∧ w ≠ [] ∧ (∀ d ∈ w, Text.isWord d = true) ∧ Ended v := by
  refine ⟨(c :: t).takeWhile Text.isWord, (c :: t).dropWhile Text.isWord, List.takeWhile_append_dropWhile.symm, ?_,
    fun _ => List.mem_takeWhile_imp, fun d hd => ?_⟩
  · rw [List.takeWhile_cons_of_pos hc]
    exact List.cons_ne_nil _ _
  · obtain ⟨u, hu⟩ : ∃ u, (c :: t).dropWhile Text.isWord = d :: u := List.head?_eq_some_iff.mp hd
    exact Text.head_dropWhile _ hu

/-- No word goes on at a quotation mark. -/
theorem Ended.quote (h : Ended t) (r : Text) : Ended (t ++ '"' :: r) := by
  cases t with
  | nil =>
    rintro _ ⟨⟩
    rfl
  | cons c t => exact h

/-- **No word goes over a quotation mark**: what is in front of it and what is behind it are respelled apart.  The
induction is on the text in front of it, word by word. -/
theorem spellWords_quote (p r : Text) : spellWords (p ++ '"' :: r) = spellWords p ++ '"' :: spellWords r := by
  induction hn : p.length using Nat.strongRecOn generalizing p with
  | ind n ih =>
    cases p with
    | nil => exact spellWords_cons rfl
    | cons c p =>
      cases hc : Text.isWord c with
      | false =>
        have hshorter : p.length < n := by
          rw [← hn]
          exact Nat.lt_succ_self _
        rw [List.cons_append, spellWords_cons hc, spellWords_cons hc, ih p.length hshorter p rfl]
        rfl
      | true =>
        obtain ⟨w, v, hsplit, hne, hword, hended⟩ := exists_word hc p
        have hshorter : v.length < n := by
          rw [← hn, hsplit, List.length_append]
          exact Nat.lt_add_of_pos_left (List.length_pos_of_ne_nil hne)
        rw [hsplit, List.append_assoc, spellWords_append_word hne hword hended,
          spellWords_append_word hne hword (hended.quote r), ih v.length hshorter v rfl]
        split
        · rw [List.append_assoc]
        · split
          · rw [List.append_assoc]
          · split
            · rw [Text.trimStart_quote, List.cons_append]
            · rw [List.append_assoc]

/-- No character but the three signs is new in a text with words respelled. -/
theorem mem_spellRuns {c : Char} {rs : List Text} (h : c ∈ spellRuns rs) :
    c ∈ rs.flatten ∨ c = '&' ∨ c = '|' ∨ c = '!' := by
  induction rs with
  | nil => exact absurd h List.not_mem_nil
  | cons run rs ih =>
    have hrest : c ∈ spellRuns rs → c ∈ (run :: rs).flatten ∨ c = '&' ∨ c = '|' ∨ c = '!' := fun hmem =>
      (ih hmem).imp_left (List.mem_append_right run)
    rw [spellRuns] at h
    split at h
    · rcases List.mem_append.mp h with h | h
      · exact .inr (.inl (by simpa using h))
      · exact hrest h
    · split at h
      · rcases List.mem_append.mp h with h | h
        · exact .inr (.inr (.inl (by simpa using h)))
        · exact hrest h
      · split at h
        · rcases List.mem_cons.mp h with rfl | h
          · exact .inr (.inr (.inr rfl))
          · exact hrest ((List.dropWhile_suffix _).subset h)
        · rcases List.mem_append.mp h with h | h
          · exact .inl (List.mem_append_left _ h)
          · exact hrest h

theorem not_mem_spellWords (h : '"' ∉ p) : '"' ∉ spellWords p := by
  intro hmem
  rcases mem_spellRuns hmem with hmem | hc | hc | hc
  · rw [Text.flatten_runs] at hmem
    exact h hmem
  all_goals exact absurd hc (by decide)

/-- Each of the three words that is respelled leaves fewer characters of words. -/
theorem countP_spellRuns (rs : List Text) :
    (spellRuns rs).countP Text.isWord + rs.countP isSpelled ≤ rs.flatten.countP Text.isWord := by
  induction rs with
  | nil => exact Nat.le_refl 0
  | cons run rs ih =>
    have htrim : (Text.trimStart (spellRuns rs)).countP Text.isWord ≤ (spellRuns rs).countP Text.isWord :=
      (List.dropWhile_suffix _).sublist.countP_le
    rw [spellRuns, List.flatten_cons, List.countP_append, List.countP_cons]
    split
    · next hrun =>
      have hsigns : "&&".toList.countP Text.isWord = 0 := by decide
      have hletters : run.countP Text.isWord = 3 := by rw [hrun]; decide
      have hone : isSpelled run = true := isSpelled_iff.mpr (.inl hrun)
      rw [List.countP_append, if_pos hone]
      omega
    · split
      · next hrun =>
        have hsigns : "||".toList.countP Text.isWord = 0 := by decide
        have hletters : run.countP Text.isWord = 2 := by rw [hrun]; decide
        have hone : isSpelled run = true := isSpelled_iff.mpr (.inr (.inl hrun))
        rw [List.countP_append, if_pos hone]
        omega
      · split
        · next hrun =>
          have hletters : run.countP Text.isWord = 3 := by rw [hrun]; decide
          have hone : isSpelled run = true := isSpelled_iff.mpr (.inr (.inr hrun))
          rw [List.countP_cons_of_neg (by decide), if_pos hone]
          omega
        · next hand hor hnot =>
          have hnone : ¬isSpelled run = true := fun h => by
            rcases isSpelled_iff.mp h with h | h | h
            · exact hand h
            · exact hor h
            · exact hnot h
          rw [List.countP_append, if_neg hnone]
          omega

/-- Runs without the three words stay. -/
theorem spellRuns_eq_flatten {rs : List Text} (h : ∀ run ∈ rs, isSpelled run = false) : spellRuns rs = rs.flatten := by
  induction rs with
  | nil => rfl
  | cons run rs ih =>
    have hrun := h run List.mem_cons_self
    have hne : run ≠ "AND".toList ∧ run ≠ "OR".toList ∧ run ≠ "NOT".toList := by
      refine ⟨?_, ?_, ?_⟩ <;> rintro rfl <;> exact absurd hrun (by decide)
    have hrest := ih fun run' hmem => h run' (List.mem_cons_of_mem run hmem)
    rw [spellRuns, if_neg hne.1, if_neg hne.2.1, if_neg hne.2.2, hrest]
    rfl

/-- **A text is left as it is exactly if it has none of the three words.** -/
theorem spellWords_eq_iff : spellWords t = t ↔ ∀ run ∈ runs t, isSpelled run = false := by
  constructor
  · intro h run hrun
    have hcount := countP_spellRuns (runs t)
    rw [Text.flatten_runs, show spellRuns (runs t) = t from h] at hcount
    have hzero : (runs t).countP isSpelled = 0 := by omega
    simpa using List.countP_eq_zero.mp hzero run hrun
  · intro h
    rw [spellWords, spellRuns_eq_flatten h, Text.flatten_runs]

/-! ### Signs -/

theorem mem_spellSigns {c : Char} {quoted : Bool} (h : c ∈ spellSigns before quoted t) : c ∈ t := by
  induction t generalizing before quoted with
  | nil => exact h
  | cons d t ih =>
    have hone : ∀ {b : Bool}, c ∈ d :: spellSigns (some d) b t → c ∈ d :: t := fun hmem =>
      List.mem_cons.mpr ((List.mem_cons.mp hmem).imp_right ih)
    have htwo : ∀ {b : Bool}, c ∈ d :: d :: spellSigns (some d) b t → c ∈ d :: t := fun hmem =>
      (List.mem_cons.mp hmem).elim (fun hc => List.mem_cons.mpr (.inl hc)) hone
    unfold spellSigns at h
    split at h
    · exact hone h
    · split at h
      · exact hone h
      · split at h
        · exact htwo h
        · split at h
          · exact htwo h
          · exact hone h

/-- A quotation mark behind a text is as good as its end. -/
theorem head?_ne_quote {c : Char} (hc : c ≠ '"') (t r : Text) :
    ((t ++ '"' :: r).head? != some c) = (t.head? != some c) := by
  cases t with
  | nil =>
    rw [Bool.eq_iff_iff]
    simp [Ne.symm hc]
  | cons d t => rfl

/-- Signs are doubled in front of a quotation. -/
theorem spellSigns_open (hp : '"' ∉ p) (r : Text) :
    spellSigns before false (p ++ '"' :: r) = spellSigns before false p ++ '"' :: spellSigns (some '"') true r := by
  induction p generalizing before with
  | nil => rfl
  | cons c p ih =>
    rw [List.mem_cons, not_or] at hp
    have hc := Ne.symm hp.1
    rw [List.cons_append, spellSigns, spellSigns, if_neg hc, if_neg hc, if_neg Bool.false_ne_true,
      if_neg Bool.false_ne_true, head?_ne_quote (by decide), head?_ne_quote hc, ih hp.2]
    split
    · rfl
    · split <;> rfl

/-- **No sign is doubled in a quotation.** -/
theorem spellSigns_closed (hq : '"' ∉ q) (r : Text) :
    spellSigns before true (q ++ '"' :: r) = q ++ '"' :: spellSigns (some '"') false r := by
  induction q generalizing before with
  | nil => rfl
  | cons c q ih =>
    rw [List.mem_cons, not_or] at hq
    rw [List.cons_append, spellSigns, if_neg (Ne.symm hq.1), if_pos rfl, ih hq.2]
    rfl

/-! ### Words and signs -/

/-- The first quotation of a text: its words are respelled, its signs are not. -/
theorem respell_quote (hp : '"' ∉ p) (hq : '"' ∉ q) (r : Text) :
    respell before (p ++ '"' :: (q ++ '"' :: r)) =
      respell before p ++ '"' :: (spellWords q ++ '"' :: respell (some '"') r) := by
  unfold respell
  rw [spellWords_quote, spellWords_quote, spellSigns_open (not_mem_spellWords hp),
    spellSigns_closed (not_mem_spellWords hq)]

theorem not_mem_respell (hp : '"' ∉ p) : '"' ∉ respell before p := fun hmem =>
  not_mem_spellWords hp (mem_spellSigns hmem)

/-- **The quotations of a respelled text** are those of the text with their words respelled. -/
theorem quotations_respell (h : Paired t) : quotations (respell before t) = (quotations t).map spellWords := by
  refine Paired.induct (motive := fun t => ∀ before, quotations (respell before t) = (quotations t).map spellWords)
    ?_ ?_ h before
  · intro p hp before
    rw [Text.quotations_plain hp, Text.quotations_plain (not_mem_respell hp)]
    rfl
  · intro p q r hp hq _ ih before
    rw [respell_quote hp hq, Text.quotations_quote (not_mem_respell hp) (not_mem_spellWords hq), ih,
      Text.quotations_quote hp hq]
    rfl

/-- **Quotations in translated conditions.**  Let the quotation marks of a condition come in pairs.  Its translation has
the same quotations, except that the words in them are respelled like those outside; no sign in them is doubled.  So the
quotations are kept as they are exactly if AND, OR and NOT stand in none of them as words. -/
theorem quotations_condition (t : Text) (h : Paired t) :
    quotations (condition t) = (quotations t).map spellWords ∧
      (quotations (condition t) = quotations t ↔
        ∀ q ∈ quotations t, ∀ run ∈ runs q, isSpelled run = false) := by
  obtain ⟨hpaired, hquotations⟩ := h.question
  have hspelled : quotations (condition t) = (quotations t).map spellWords := by
    rw [← hquotations]
    exact quotations_respell hpaired
  refine ⟨hspelled, ?_⟩
  have hkept : (quotations t).map spellWords = quotations t ↔ ∀ q ∈ quotations t, spellWords q = id q := by
    rw [← List.map_inj_left, List.map_id]
  rw [hspelled, hkept]
  exact forall₂_congr fun q _ => spellWords_eq_iff

/-- Lone signs in two quotations, and names that begin like the words; outside of them, words and a lone sign. -/
theorem quotations_condition_signs :
    Paired "NOT x = \"a & b = c\" AND y == \"ANDY | OR_\" ?".toList ∧
      quotations "NOT x = \"a & b = c\" AND y == \"ANDY | OR_\" ?".toList = ["a & b = c".toList, "ANDY | OR_".toList] ∧
      quotations (condition "NOT x = \"a & b = c\" AND y == \"ANDY | OR_\" ?".toList) =
        quotations "NOT x = \"a & b = c\" AND y == \"ANDY | OR_\" ?".toList :=
  ⟨by decide +kernel, by decide +kernel,
    (quotations_condition "NOT x = \"a & b = c\" AND y == \"ANDY | OR_\" ?".toList (by decide +kernel)).2.mpr
      (by decide +kernel)⟩

/-- A word in a quotation is respelled, though a sign would not be. -/
theorem quotations_condition_word :
    Paired "x == \"a AND b\"".toList ∧ quotations "x == \"a AND b\"".toList = ["a AND b".toList] ∧
      quotations (condition "x == \"a AND b\"".toList) = ["a && b".toList] := by
  decide +kernel

end Code

end Flowchart
