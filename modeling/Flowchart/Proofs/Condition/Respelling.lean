import Flowchart.Code.Condition
import Flowchart.Proofs.Condition.Clauses
import Flowchart.Proofs.Condition.CExpressions

/-!
# Conditions spelled for C

Translated to C, a condition over whole numbers is the same condition spelled otherwise: with signs in place of
words, doubled signs in place of lone ones, and nothing between a negation that was a word and what it negates.

* `Code.spellWords_cons` — a text is respelled run by run.
* `Code.respell` — words and signs respelled; `Clauses.respell_text` does this for a condition at the
  beginning of a text, whatever follows.
* `Clause.respelled`, `Clauses.respelled` — a condition in the spelling of C.
* **`Clauses.condition_eq`** — the translation of a condition is the condition in this spelling.
-/

namespace Flowchart

/-! ### White space -/

theorem C.ascii_of_isSpace {c : Char} (h : isSpace c = true) : c.toNat < 128 := by
  simp only [isSpace, Bool.or_eq_true, beq_iff_eq] at h
  rcases h with (((rfl | rfl) | rfl) | rfl) | rfl <;> decide

/-- White space of C is no part of words. -/
theorem C.isWord_of_isSpace {c : Char} (h : isSpace c = true) : Text.isWord c = false := by
  rw [Text.isWord_of_ascii (ascii_of_isSpace h), Text.isNamePart_of_isBlank (isBlank_of_isSpace h)]

theorem C.Spaces.isWord {m : Text} (h : Spaces m) : ∀ c ∈ m, Text.isWord c = false := fun c hc =>
  isWord_of_isSpace (h c hc)

/-- What follows white space of C begins in ASCII if it did without. -/
theorem C.Spaces.ascii_append {m r : Text} (h : Spaces m) (hr : ∀ c ∈ r.head?, c.toNat < 128) :
    ∀ c ∈ (m ++ r).head?, c.toNat < 128 :=
  Text.forall_head?_append (fun c hc => ascii_of_isSpace (h c hc)) hr

/-- Clauses begin in ASCII. -/
theorem Clause.ascii_of_isStart {c : Char} (h : isStart c = true) : c.toNat < 128 := by
  rcases isStart_iff.mp h with rfl | rfl | rfl | h
  · decide
  · decide
  · decide
  · exact Text.ascii_of_isNamePart h

/-! ### Words -/

namespace Code

variable {c : Char} {t r : Text}

/-- The operator for the word of a run, or the run. -/
theorem spellRuns_cons_of_not_word (hc : Text.isWord c = false) (q : Text) (rest : List Text) :
    spellRuns ((c :: q) :: rest) = c :: (q ++ spellRuns rest) := by
  have hne : ∀ w : Text, (∀ d ∈ w, Text.isWord d = true) → c :: q ≠ w := by
    rintro w hw rfl
    rw [hw c List.mem_cons_self] at hc
    cases hc
  rw [spellRuns, if_neg (hne _ (List.all_eq_true.mp rfl)), if_neg (hne _ (List.all_eq_true.mp rfl)),
    if_neg (hne _ (List.all_eq_true.mp rfl))]
  rfl

/-- **A character of no word stays.** -/
theorem spellWords_cons (hc : Text.isWord c = false) : spellWords (c :: r) = c :: spellWords r := by
  unfold spellWords
  rw [Text.runs]
  split
  · next d q rest hruns =>
    rw [hruns]
    split
    · next hsame =>
      rw [spellRuns_cons_of_not_word hc, spellRuns_cons_of_not_word (by rw [← hsame, hc])]
      rfl
    · exact spellRuns_cons_of_not_word hc [] _
  · exact spellRuns_cons_of_not_word hc [] _

/-- What can be computed of the characters of a text. -/
theorem noWord_of_all (h : t.all (!Text.isWord ·) = true) : ∀ d ∈ t, Text.isWord d = false := fun d hd => by
  simpa using List.all_eq_true.mp h d hd

theorem spellWords_append (ht : ∀ c ∈ t, Text.isWord c = false) : spellWords (t ++ r) = t ++ spellWords r := by
  induction t with
  | nil => rfl
  | cons c t ih =>
    rw [List.cons_append, spellWords_cons (ht c List.mem_cons_self), ih fun d hd => ht d (List.mem_cons_of_mem c hd)]
    rfl

/-- No word goes on behind a text. -/
def Ended (r : Text) : Prop := ∀ d ∈ r.head?, Text.isWord d = false

/-- A word that is not one of the three stays. -/
theorem spellWords_word (hne : t ≠ []) (hword : ∀ c ∈ t, Text.isNamePart c = true) (hk : ∀ k : Connective, t ≠ k.word)
    (hnot : t ≠ Negation.word.text) (hr : Ended r) : spellWords (t ++ r) = t ++ spellWords r := by
  unfold spellWords
  rw [Text.runs_append_word hne (fun c hc => Text.isWord_of_isNamePart (hword c hc)) hr, spellRuns,
    if_neg (show t ≠ "AND".toList from hk .and), if_neg (show t ≠ "OR".toList from hk .or),
    if_neg (show t ≠ "NOT".toList from hnot)]

/-- The word for a connective becomes its double sign. -/
theorem spellWords_connective (k : Connective) (hr : Ended r) :
    spellWords (k.word ++ r) = k.doubled ++ spellWords r := by
  have hword : ∀ c ∈ k.word, Text.isWord c = true := fun c hc =>
    Text.isWord_of_isNamePart (Connective.isNamePart_of_mem_word hc)
  unfold spellWords
  rw [Text.runs_append_word (by cases k <;> exact List.cons_ne_nil _ _) hword hr, spellRuns]
  cases k with
  | and => exact if_pos rfl
  | or =>
    rw [if_neg (by decide)]
    exact if_pos rfl

/-- A text that does not begin with a blank does not begin with one in the new spelling. -/
theorem head?_spellWords (h : ∀ d ∈ t.head?, Text.isBlank d = false) :
    ∀ d ∈ (spellWords t).head?, Text.isBlank d = false := by
  cases t with
  | nil => rintro d ⟨⟩
  | cons c t =>
    obtain ⟨q, rest, hruns⟩ := Text.runs_cons_eq c t
    have hc := h c rfl
    unfold spellWords
    rw [hruns, spellRuns]
    split
    · rintro _ ⟨⟩
      rfl
    · split
      · rintro _ ⟨⟩
        rfl
      · split
        · rintro _ ⟨⟩
          rfl
        · rintro _ ⟨⟩
          exact hc

/-- The word for a negation becomes a sign, and the blanks behind it are dropped. -/
theorem spellWords_negation {m : Text} (hm : C.Spaces m) (ht : ∀ d ∈ t.head?, Text.isBlank d = false)
    (hr : Ended (m ++ t)) : spellWords (Negation.word.text ++ (m ++ t)) = '!' :: spellWords t := by
  have hrest : Text.trimStart (spellWords (m ++ t)) = spellWords t := by
    rw [spellWords_append hm.isWord]
    exact Text.trimStart_append hm.isBlank (head?_spellWords ht)
  unfold spellWords at hrest ⊢
  rw [Text.runs_append_word (by decide) (List.all_eq_true.mp rfl) hr, spellRuns, if_neg (by decide), if_neg (by decide),
    if_pos (by decide), hrest]

/-! ### Signs -/

variable {before : Option Char}

/-- Characters that are never doubled and quote nothing. -/
def isSteady (c : Char) : Bool := c != '"' && c != '=' && c != '&' && c != '|'

theorem spellSigns_append (ht : ∀ c ∈ t, isSteady c = true) :
    spellSigns before false (t ++ r) = t ++ spellSigns (t.getLast?.or before) false r := by
  induction t generalizing before with
  | nil => rfl
  | cons c t ih =>
    have hc : isSteady c = true := ht c List.mem_cons_self
    simp only [isSteady, Bool.and_eq_true, bne_iff_ne, ne_eq] at hc
    have hlast : (c :: t).getLast?.or before = t.getLast?.or (some c) := by
      rw [List.getLast?_cons]
      cases t.getLast? <;> rfl
    rw [List.cons_append, hlast, List.cons_append, ← ih fun d hd => ht d (List.mem_cons_of_mem c hd)]
    simp [spellSigns, hc]

/-- A sign of comparison is written with two signs if it stands for equality. -/
theorem spellSigns_comparator (k : Comparator) (lone : Bool) (hbefore : before.any isComparing = false)
    (hr : r.head? ≠ some '=') :
    spellSigns before false (k.sign lone ++ r) =
      k.sign false ++ spellSigns (k.sign false).getLast? false r := by
  cases k <;> cases lone <;> simp [Comparator.sign, spellSigns, isComparing, hbefore, hr]

/-- A sign for a connective is written twice. -/
theorem spellSigns_connective (k : Connective) {s : Spelling} (hs : s ≠ .word) (hbefore : before ≠ some k.single)
    (hr : r.head? ≠ some k.single) :
    spellSigns before false (k.spelled s ++ r) = k.doubled ++ spellSigns (some k.single) false r := by
  cases s with
  | word => exact absurd rfl hs
  | doubled => cases k <;> simp [Connective.spelled, Connective.doubled, Connective.single, spellSigns]
  | single =>
    cases k <;> simp_all [Connective.spelled, Connective.doubled, Connective.single, spellSigns]

/-! ### The beginning of a text -/

/-- A text in the spelling of C, behind a character. -/
def respell (before : Option Char) (t : Text) : Text := spellSigns before false (spellWords t)

/-- Characters that make no words, are never doubled and quote nothing. -/
def isPlain (c : Char) : Bool := !Text.isWord c && isSteady c

theorem isPlain_iff : isPlain c = true ↔ Text.isWord c = false ∧ isSteady c = true := by
  simp [isPlain]

theorem isPlain_of_isSpace (h : C.isSpace c = true) : isPlain c = true := by
  refine isPlain_iff.mpr ⟨C.isWord_of_isSpace h, ?_⟩
  simp only [C.isSpace, Bool.or_eq_true, beq_iff_eq] at h
  rcases h with (((rfl | rfl) | rfl) | rfl) | rfl <;> decide

theorem respell_plain (ht : ∀ c ∈ t, isPlain c = true) :
    respell before (t ++ r) = t ++ respell (t.getLast?.or before) r := by
  unfold respell
  rw [spellWords_append fun c hc => (isPlain_iff.mp (ht c hc)).1,
    spellSigns_append fun c hc => (isPlain_iff.mp (ht c hc)).2]

theorem respell_spaces {m : Text} (hm : C.Spaces m) :
    respell before (m ++ r) = m ++ respell (m.getLast?.or before) r :=
  respell_plain fun c hc => isPlain_of_isSpace (hm c hc)

theorem ended_spaces {m : Text} (hm : C.Spaces m) (h : Ended r) : Ended (m ++ r) :=
  Text.forall_head?_append hm.isWord h

theorem ended_comparator (k : Comparator) (lone : Bool) (r : Text) : Ended (k.sign lone ++ r) := by
  cases k <;> cases lone <;> rintro _ ⟨⟩ <;> rfl

/-- In ASCII, no word goes on where no name does. -/
theorem ended_of_boundary (h : Connective.isBoundary r.head? = true) (hr : ∀ c ∈ r.head?, c.toNat < 128) :
    Ended r := fun c hc => by
  rw [Text.isWord_of_ascii (hr c hc), Connective.isBoundary_iff.mp h c hc]

theorem Ended.append (h : Ended t) (hne : t ≠ []) (r : Text) : Ended (t ++ r) := by
  rwa [Ended, List.head?_append_of_ne_nil t hne]

end Code

/-! ### Conditions -/

/-- A connective in the spelling of C. -/
def Joint.respelled (j : Joint) : Joint := { j with spelling := .doubled }

/-- A comparison in the spelling of C. -/
def Compared.respelled (c : Compared) : Compared := { c with lone := false }

/-- No blanks at all. -/
def Blanks.none : Blanks := ⟨[], by simp⟩

theorem Blanks.isBlank_of_mem_one : ∀ c ∈ [' '], Text.isBlank c = true := List.all_eq_true.mp rfl

/-- One blank. -/
def Blanks.one : Blanks := ⟨[' '], Blanks.isBlank_of_mem_one⟩

mutual

/-- A clause in the spelling of C. -/
def Clause.respelled : Clause → Clause
  | .compared c => .compared c.respelled
  | .group before f after => .group before (Clauses.respelled f) after
  | .negation .word _ c => .negation .sign Blanks.none c.respelled
  | .negation .sign gap c => .negation .sign gap c.respelled

/-- A condition in the spelling of C. -/
def Clauses.respelled : Chain Clause → Chain Clause
  | .single c => .single c.respelled
  | .join c j rest => .join c.respelled j.respelled (Clauses.respelled rest)

end

/-- All blanks of a comparison are white space in C. -/
def Compared.Plain (c : Compared) : Prop := C.Spaces c.before.1 ∧ C.Spaces c.after.1

mutual

/-- All blanks in a clause are white space in C. -/
def Clause.Plain : Clause → Prop
  | .compared c => c.Plain
  | .group before f after => C.Spaces before.1 ∧ Clauses.Plain f ∧ C.Spaces after.1
  | .negation _ gap c => C.Spaces gap.1 ∧ c.Plain

/-- All blanks in a condition are white space in C. -/
def Clauses.Plain : Chain Clause → Prop
  | .single c => c.Plain
  | .join c j rest => c.Plain ∧ (C.Spaces j.before ∧ C.Spaces j.after) ∧ Clauses.Plain rest

end

instance (c : Compared) : Decidable c.Plain := inferInstanceAs (Decidable (_ ∧ _))

mutual

def Clause.decidablePlain : (c : Clause) → Decidable c.Plain
  | .compared c => inferInstanceAs (Decidable c.Plain)
  | .group _ f _ =>
    have := Clauses.decidablePlain f
    inferInstanceAs (Decidable (_ ∧ _ ∧ _))
  | .negation _ _ c =>
    have := c.decidablePlain
    inferInstanceAs (Decidable (_ ∧ _))

def Clauses.decidablePlain : (f : Chain Clause) → Decidable (Clauses.Plain f)
  | .single c => c.decidablePlain
  | .join c _ rest =>
    have := c.decidablePlain
    have := Clauses.decidablePlain rest
    inferInstanceAs (Decidable (_ ∧ _ ∧ _))

end

instance (f : Clauses) : Decidable (Clauses.Plain f) := Clauses.decidablePlain f

namespace Term

open Code

variable {before : Option Char} {r : Text}

/-- A term keeps its spelling. -/
theorem spellWords_text (t : Term) (hr : Ended r) : spellWords (t.text ++ r) = t.text ++ spellWords r := by
  obtain ⟨minus, w, htext, hminus, hne, hparts, hword, hnot⟩ := t.text_eq_word
  rw [htext]
  rcases hminus with rfl | rfl
  · exact spellWords_word hne hparts hword hnot hr
  · rw [List.append_assoc, List.singleton_append, spellWords_cons (by decide), spellWords_word hne hparts hword hnot hr]
    rfl

theorem isSteady_text (t : Term) : ∀ c ∈ t.text, isSteady c = true := by
  obtain ⟨minus, w, htext, hminus, -, hparts, -⟩ := t.text_eq_word
  have hw : ∀ c ∈ w, isSteady c = true := by
    intro c hc
    have hpart := hparts c hc
    have hne : c ≠ '"' ∧ c ≠ '=' ∧ c ≠ '&' ∧ c ≠ '|' := by
      refine ⟨?_, ?_, ?_, ?_⟩ <;> rintro rfl <;> revert hpart <;> decide
    simp [isSteady, hne]
  rw [htext]
  intro c hc
  rcases List.mem_append.mp hc with hc | hc
  · rcases hminus with rfl | rfl
    · cases hc
    · rw [List.mem_singleton.mp hc]
      decide
  · exact hw c hc

end Term

namespace Compared

open Code

variable {before : Option Char} {r : Text}

/-- But for its sign, a comparison keeps its spelling. -/
theorem spellWords_text (c : Compared) (hc : c.Plain) (hr : Ended r) :
    spellWords (c.text ++ r) = c.text ++ spellWords r := by
  have hsign : ∀ d ∈ c.comparator.sign c.lone, Text.isWord d = false :=
    noWord_of_all (by cases c.comparator <;> cases c.lone <;> rfl)
  have hended : Ended (c.before.1 ++ (c.comparator.sign c.lone ++ (c.after.1 ++ (c.right.text ++ r)))) :=
    ended_spaces hc.1 (ended_comparator c.comparator c.lone _)
  unfold text
  simp only [List.append_assoc]
  rw [c.left.spellWords_text hended, spellWords_append hc.1.isWord, spellWords_append hsign,
    spellWords_append hc.2.isWord, c.right.spellWords_text hr]

theorem spellSigns_text (c : Compared) (hc : c.Plain) :
    spellSigns before false (c.text ++ r) = c.respelled.text ++ spellSigns c.text.getLast? false r := by
  have hspace : ∀ {m : Text}, C.Spaces m → ∀ d ∈ m, isSteady d = true := fun hm d hd =>
    (isPlain_iff.mp (isPlain_of_isSpace (hm d hd))).2
  obtain ⟨d, hd, hend⟩ := c.left.isNamePart_getLast?
  obtain ⟨e, he, -⟩ := c.right.isNamePart_getLast?
  have hlast : c.text.getLast? = some e := by
    unfold text
    simp [List.getLast?_append, he]
  have hbefore : (c.before.1.getLast?.or (c.left.text.getLast?.or before)).any isComparing = false := by
    rw [hd]
    cases hblank : c.before.1.getLast? with
    | none =>
      have hne : d ≠ '=' ∧ d ≠ '<' ∧ d ≠ '>' ∧ d ≠ '!' := by
        refine ⟨?_, ?_, ?_, ?_⟩ <;> rintro rfl <;> revert hend <;> decide
      simp [isComparing, hne]
    | some b =>
      have hb := hc.1 b (List.mem_of_getLast? hblank)
      have hne : b ≠ '=' ∧ b ≠ '<' ∧ b ≠ '>' ∧ b ≠ '!' := by
        refine ⟨?_, ?_, ?_, ?_⟩ <;> rintro rfl <;> revert hb <;> decide
      simp [isComparing, hne]
  have hafter : (c.after.1 ++ (c.right.text ++ r)).head? ≠ some '=' := by
    have hne := c.head?_after_ne
    rw [← List.append_assoc, List.head?_append_of_ne_nil _ (by simp [c.right.tidy.ne_nil])]
    exact hne
  rw [hlast]
  unfold text respelled
  simp only [List.append_assoc]
  rw [spellSigns_append c.left.isSteady_text, spellSigns_append (hspace hc.1),
    spellSigns_comparator c.comparator c.lone hbefore hafter, spellSigns_append (hspace hc.2),
    spellSigns_append c.right.isSteady_text, he, Option.some_or]

end Compared

theorem Joint.head?_ascii {j : Joint} (hbefore : C.Spaces j.before) (t : Text) :
    ∀ d ∈ (j.text ++ t).head?, d.toNat < 128 := by
  unfold Joint.text
  rw [List.append_assoc, List.append_assoc]
  refine hbefore.ascii_append ?_
  cases j.connective <;> cases j.spelling <;> rintro _ ⟨⟩ <;> decide

namespace Code

variable {before : Option Char} {r : Text}

/-- Doubling signs leaves the first character as it is. -/
theorem head?_spellSigns (quoted : Bool) (t : Text) : (spellSigns before quoted t).head? = t.head? := by
  cases t with
  | nil => rfl
  | cons c t =>
    unfold spellSigns
    repeat' split
    all_goals rfl

/-- A negation becomes a sign. -/
theorem respell_negation (s : Negation) (gap : Blanks) (c : Clause) (hgap : C.Spaces gap.1)
    (happart : Connective.Apart s.text (gap.1 ++ c.text))
    (hc : ∀ b, respell b (c.text ++ r) = c.respelled.text ++ respell c.text.getLast? r) :
    respell before (s.text ++ (gap.1 ++ (c.text ++ r))) =
      (Clause.negation s gap c).respelled.text ++ respell c.text.getLast? r := by
  obtain ⟨d, hd, hstart⟩ := c.head?_text
  have hne : c.text ≠ [] := by simp [← List.head?_eq_none_iff, hd]
  cases s with
  | word =>
    have hascii : ∀ b ∈ c.text.head?, b.toNat < 128 := by
      rw [hd]
      rintro _ ⟨⟩
      exact Clause.ascii_of_isStart hstart
    have hended : Ended (gap.1 ++ (c.text ++ r)) := by
      have hboundary := happart.boundary (d := 'T') rfl rfl
      rw [← List.append_assoc]
      exact (ended_of_boundary hboundary (hgap.ascii_append hascii)).append (by simp [hne]) r
    have hfirst : ∀ b ∈ (c.text ++ r).head?, Text.isBlank b = false := by
      rw [List.head?_append_of_ne_nil _ hne, hd]
      rintro _ ⟨⟩
      exact Clause.isBlank_of_isStart hstart
    have hwords : respell before (Negation.word.text ++ (gap.1 ++ (c.text ++ r))) =
        '!' :: respell (some '!') (c.text ++ r) := by
      unfold respell
      rw [spellWords_negation hgap hfirst hended]
      exact spellSigns_append (t := ['!']) (List.all_eq_true.mp rfl)
    rw [hwords, hc]
    rfl
  | sign =>
    show respell before (['!'] ++ (gap.1 ++ (c.text ++ r))) = ['!'] ++ (gap.1 ++ c.respelled.text) ++ _
    rw [respell_plain (List.all_eq_true.mp rfl), respell_spaces hgap, hc]
    simp

/-- A connective is written with two signs. -/
theorem respell_joint {j : Joint} {left right : Text} (h : j.Parts left right)
    (hbefore : C.Spaces j.before) (hafter : C.Spaces j.after)
    (hleft : left.getLast? ≠ some j.connective.single) (hright : ∀ d ∈ right.head?, d.toNat < 128)
    (hne : right ≠ []) (hrespelled : (spellWords (right ++ r)).head? ≠ some j.connective.single) :
    ∃ b, respell left.getLast? (j.text ++ (right ++ r)) = j.respelled.text ++ respell b (right ++ r) := by
  have hsign : Text.isBlank j.connective.single = false := by cases j.connective <;> rfl
  have hlast : j.before.getLast?.or left.getLast? ≠ some j.connective.single := by
    cases hblank : j.before.getLast? with
    | none => exact hleft
    | some b =>
      rintro ⟨⟩
      rw [hbefore.isBlank _ (List.mem_of_getLast? hblank)] at hsign
      cases hsign
  have hhead : (spellWords (j.after ++ (right ++ r))).head? ≠ some j.connective.single := by
    rw [spellWords_append hafter.isWord]
    exact Text.head?_blanks_ne hsign hafter.isBlank hrespelled
  have hended : j.spelling = .word → Ended (j.after ++ (right ++ r)) := by
    intro hword
    rw [← List.append_assoc]
    exact (ended_of_boundary (h.boundary_after hword) (hafter.ascii_append hright)).append (by simp [hne]) r
  have hwords : ∃ s : Spelling, s ≠ .word ∧
      spellWords (j.connective.spelled j.spelling ++ (j.after ++ (right ++ r))) =
        j.connective.spelled s ++ spellWords (j.after ++ (right ++ r)) := by
    cases hspelling : j.spelling with
    | word => exact ⟨.doubled, by decide, spellWords_connective j.connective (hended hspelling)⟩
    | doubled => exact ⟨.doubled, by decide, spellWords_append (noWord_of_all (by cases j.connective <;> rfl))⟩
    | single => exact ⟨.single, by decide, spellWords_append (noWord_of_all (by cases j.connective <;> rfl))⟩
  obtain ⟨s, hs, hwords⟩ := hwords
  refine ⟨j.after.getLast?.or (some j.connective.single), ?_⟩
  unfold Joint.text
  simp only [List.append_assoc]
  rw [respell_spaces hbefore]
  have hconnective : respell (j.before.getLast?.or left.getLast?)
      (j.connective.spelled j.spelling ++ (j.after ++ (right ++ r))) =
        j.connective.doubled ++ respell (some j.connective.single) (j.after ++ (right ++ r)) := by
    unfold respell
    rw [hwords]
    exact spellSigns_connective j.connective hs hlast hhead
  rw [hconnective, respell_spaces hafter]
  rfl

end Code

mutual

/-- **A clause is respelled**, whatever follows it. -/
theorem Clause.respell_text : ∀ (c : Clause), c.Parted → c.Plain → ∀ (before : Option Char) (r : Text),
    Connective.Apart c.text r → (∀ d ∈ r.head?, d.toNat < 128) →
    Code.respell before (c.text ++ r) = c.respelled.text ++ Code.respell c.text.getLast? r
  | .compared c, _, hplain, before, r, happart, hr => by
    obtain ⟨d, hlast, hend⟩ := c.isNamePart_getLast?
    have hended : Code.Ended r := Code.ended_of_boundary (happart.boundary hlast hend) hr
    show Code.spellSigns before false (Code.spellWords (c.text ++ r)) = _
    rw [c.spellWords_text hplain hended, c.spellSigns_text hplain]
    rfl
  | .group m f m', h, hplain, before, r, _, _ => by
    obtain ⟨hbefore, hinside, hafter⟩ := hplain
    have happart : Connective.Apart (Clauses.texts f).text (m'.1 ++ ([')'] ++ r)) :=
      .inr (Connective.isBoundary_blanks m'.2 rfl)
    have hascii : ∀ d ∈ (m'.1 ++ ([')'] ++ r)).head?, d.toNat < 128 :=
      hafter.ascii_append (by rintro _ ⟨⟩; decide)
    have htext : ∀ (g : Chain Clause) (u : Text), (Clause.group m g m').text ++ u =
        ['('] ++ (m.1 ++ ((Clauses.texts g).text ++ (m'.1 ++ ([')'] ++ u)))) := by
      intro g u
      show Text.inParentheses _ ++ u = _
      simp [Text.inParentheses]
    have hlast : (Clause.group m f m').text.getLast? = some ')' := Text.getLast?_inParentheses _
    show _ = (Clause.group m (Clauses.respelled f) m').text ++ _
    rw [hlast, htext, htext, Code.respell_plain (List.all_eq_true.mp rfl), Code.respell_spaces hbefore,
      Clauses.respell_text f h hinside _ _ happart hascii, Code.respell_spaces hafter,
      Code.respell_plain (List.all_eq_true.mp rfl)]
    rfl
  | .negation s gap c, h, hplain, before, r, happart, hr => by
    have hlast := Clause.getLast?_negation s gap c
    have hinside : Connective.Apart c.text r := happart.congr hlast
    rw [hlast]
    show Code.respell before ((s.text ++ (gap.1 ++ c.text)) ++ r) = _
    simp only [List.append_assoc]
    exact Code.respell_negation s gap c hplain.1 h.1 fun b => Clause.respell_text c h.2 hplain.2 b r hinside hr

theorem Clauses.respell_text : ∀ (f : Chain Clause), Clauses.Parted f → Clauses.Plain f →
    ∀ (before : Option Char) (r : Text), Connective.Apart (Clauses.texts f).text r → (∀ d ∈ r.head?, d.toNat < 128) →
    Code.respell before ((Clauses.texts f).text ++ r) =
      (Clauses.texts (Clauses.respelled f)).text ++ Code.respell (Clauses.texts f).text.getLast? r
  | .single c, h, hplain, before, r, happart, hr => Clause.respell_text c h hplain before r happart hr
  | .join c j rest, h, hplain, before, r, happart, hr => by
    obtain ⟨hc, hparts, hrest⟩ := h
    obtain ⟨hplainc, ⟨hbefore, hafter⟩, hplainr⟩ := hplain
    obtain ⟨d, hd, hstart⟩ := Clauses.head?_text rest
    have hne : (Clauses.texts rest).text ≠ [] := (Clauses.sound rest hrest).tidy.ne_nil
    have hlast : (Clauses.texts (.join c j rest)).text.getLast? = (Clauses.texts rest).text.getLast? :=
      Clauses.getLast?_join c j rest
    have hinside : Connective.Apart (Clauses.texts rest).text r := happart.congr hlast
    have hrespelled := fun b => Clauses.respell_text rest hrest hplainr b r hinside hr
    -- The rest begins in the new spelling as conditions begin: with no connective.
    have hhead : (Code.spellWords ((Clauses.texts rest).text ++ r)).head? ≠ some j.connective.single := by
      obtain ⟨b, hb, hstart⟩ := Clauses.head?_text (Clauses.respelled rest)
      have hfirst : (Code.respell none ((Clauses.texts rest).text ++ r)).head? = some b := by
        rw [hrespelled, List.head?_append, show (Clauses.texts (Clauses.respelled rest)).text.head? = _ from hb]
        rfl
      unfold Code.respell at hfirst
      rw [Code.head?_spellSigns] at hfirst
      rw [hfirst]
      rintro ⟨⟩
      revert hstart
      cases j.connective <;> decide
    have hleft : c.text.getLast? ≠ some j.connective.single := by
      obtain ⟨b, hb, hend⟩ := c.getLast?_text
      rw [hb]
      rintro ⟨⟩
      revert hend
      cases j.connective <;> decide
    have hascii : ∀ b ∈ (Clauses.texts rest).text.head?, b.toNat < 128 := by
      rw [show (Clauses.texts rest).text.head? = _ from hd]
      rintro _ ⟨⟩
      exact Clause.ascii_of_isStart hstart
    have happart' : Connective.Apart c.text (j.text ++ ((Clauses.texts rest).text ++ r)) := by
      have hjoint := Chain.apart_joint hparts
      unfold Connective.Apart at hjoint ⊢
      rwa [← List.append_assoc, List.head?_append_of_ne_nil _ (by simp [hne])]
    obtain ⟨b, hjoint⟩ := Code.respell_joint hparts hbefore hafter hleft hascii hne hhead
    rw [hlast]
    show Code.respell before ((c.text ++ (j.text ++ (Clauses.texts rest).text)) ++ r) =
      (c.respelled.text ++ (j.respelled.text ++ (Clauses.texts (Clauses.respelled rest)).text)) ++ _
    simp only [List.append_assoc]
    rw [Clause.respell_text c hc hplainc before _ happart' (Joint.head?_ascii hbefore _), hjoint, hrespelled]

end

/-- **The translation of a condition** over whole numbers is the condition in the spelling of C. -/
theorem Clauses.condition_eq {f : Clauses} (h : Parted f) (hplain : Plain f) {t : Text}
    (ht : Condition.question t = f.text) : Code.condition t = Clauses.text (respelled f) := by
  have hrespelled := respell_text f h hplain none [] (.inr rfl) (by simp)
  rw [List.append_nil] at hrespelled
  show Code.respell none (Condition.question t) = _
  rw [ht]
  exact hrespelled.trans (List.append_nil _)

end Flowchart
