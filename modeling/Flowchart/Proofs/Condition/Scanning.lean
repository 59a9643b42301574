import Flowchart.Condition.Evaluation
import Flowchart.Proofs.Text.Passages

/-!
# Going through conditions

The reader of conditions knows no grammar.  It goes through a text for a connective, and where it finds one it cuts
and goes through both parts again.  This file says what it finds in texts that are put together from others.

* `Condition.Tidy` — a text to which blanks at the margins make no difference.
* `Nesting.through?` — the nesting behind a text in which no parenthesis is closed that was not opened.
* `Connective.Apart` — no word goes over from one text into the next.  `splitFrom?_append` goes through a text without
  connectives, whatever follows it.
* `Condition.Unbroken` — a text in which there is no connective of either sort; `Unbroken.enclosed` and
  `Unbroken.negated` say that parentheses and negations make such texts.
* `evaluateCondition_of_and` and the equations after it — what a condition means, by what is found in it.
-/

namespace Flowchart

/-! ### Margins -/

namespace Text

/-- What is so of all characters of a text, and of the first one behind it, is so of the first of both. -/
theorem forall_head?_append {p : Char → Prop} {m r : Text} (hm : ∀ c ∈ m, p c) (hr : ∀ c ∈ r.head?, p c) :
    ∀ c ∈ (m ++ r).head?, p c := by
  cases m with
  | nil => exact hr
  | cons d m =>
    rintro _ ⟨⟩
    exact hm d List.mem_cons_self

/-- Behind blanks, a text still does not begin with a character that is none. -/
theorem head?_blanks_ne {c : Char} (hc : isBlank c = false) {m r : Text} (hm : ∀ d ∈ m, isBlank d = true)
    (hr : r.head? ≠ some c) : (m ++ r).head? ≠ some c := by
  have hne : ∀ d ∈ (m ++ r).head?, d ≠ c := by
    refine forall_head?_append ?_ ?_
    · rintro _ hd rfl
      rw [hm _ hd] at hc
      cases hc
    · rintro _ hd rfl
      exact hr hd
  exact fun hhead => hne c hhead rfl

/-- Blanks are dropped in front of a text that begins with none. -/
theorem trimStart_append {m t : Text} (hm : ∀ c ∈ m, isBlank c = true) (ht : ∀ c ∈ t.head?, isBlank c = false) :
    trimStart (m ++ t) = t :=
  (split_run hm ht).2

/-- Blanks are dropped behind a text that ends with none. -/
theorem trimEnd_append {m t : Text} (hm : ∀ c ∈ m, isBlank c = true) (ht : ∀ c ∈ t.getLast?, isBlank c = false) :
    trimEnd (t ++ m) = t := by
  have hdrop := trimStart_append (m := m.reverse) (t := t.reverse) (fun c hc => hm c (List.mem_reverse.mp hc))
    fun c hc => ht c (by rwa [List.head?_reverse] at hc)
  unfold trimStart at hdrop
  unfold trimEnd
  rw [List.reverse_append, hdrop, List.reverse_reverse]

/-- Nothing is taken away behind a text that ends with no blank. -/
theorem trimEnd_eq_self {t : Text} (h : ∀ c ∈ t.getLast?, isBlank c = false) : trimEnd t = t := by
  have hend := trimEnd_append (m := []) (fun _ hc => absurd hc List.not_mem_nil) h
  rwa [List.append_nil] at hend

/-- A text that begins and ends with no blank has no margins. -/
theorem trim_eq_of_edges {t : Text} (hfirst : ∀ c ∈ t.head?, isBlank c = false)
    (hlast : ∀ c ∈ t.getLast?, isBlank c = false) : trim t = t := by
  have hstart : trimStart t = t := trimStart_append (m := []) (fun _ hc => absurd hc List.not_mem_nil) hfirst
  rw [trim, hstart, trimEnd_eq_self hlast]

/-- A text that trimming leaves as it is begins and ends with no blank. -/
theorem edges_of_trim {t : Text} (h : trim t = t) :
    (∀ c ∈ t.head?, isBlank c = false) ∧ ∀ c ∈ t.getLast?, isBlank c = false := by
  have hstart : trimStart t = t := by
    have hlen : (trimStart t).length = t.length := by
      have h₁ := length_trimStart_le t
      have h₂ := length_trimEnd_le (trimStart t)
      rw [show trimEnd (trimStart t) = t from h] at h₂
      omega
    exact (List.dropWhile_suffix isBlank).eq_of_length hlen
  have hend : trimEnd t = t := by
    unfold trim at h
    rwa [hstart] at h
  constructor
  · intro c hc
    cases t with
    | nil => cases hc
    | cons d t =>
      cases hc
      exact head_trimStart hstart
  · intro c hc
    rw [← hend, trimEnd, List.getLast?_reverse] at hc
    cases hdrop : t.reverse.dropWhile isBlank with
    | nil =>
      rw [hdrop] at hc
      cases hc
    | cons d r =>
      rw [hdrop] at hc
      cases hc
      exact head_dropWhile isBlank hdrop

end Text

namespace Condition

/-- A text that begins and ends with no blank, and does not end with a question mark. -/
structure Tidy (t : Text) : Prop where
  ne_nil : t ≠ []
  first : ∀ c ∈ t.head?, Text.isBlank c = false
  last : ∀ c ∈ t.getLast?, Text.isBlank c = false
  unasked : t.getLast? ≠ some '?'

/-- Blanks at the margins of a tidy text make no difference. -/
theorem Tidy.question_margins {m m' t : Text} (h : Tidy t) (hm : ∀ c ∈ m, Text.isBlank c = true)
    (hm' : ∀ c ∈ m', Text.isBlank c = true) : question (m ++ t ++ m') = t := by
  have htrim : Text.trim (m ++ t ++ m') = t := by
    unfold Text.trim
    rw [List.append_assoc, Text.trimStart_append hm, Text.trimEnd_append hm' h.last]
    rw [List.head?_append_of_ne_nil t h.ne_nil]
    exact h.first
  unfold question
  rw [htrim]
  exact if_neg h.unasked

/-- A tidy text is its own question. -/
theorem Tidy.question_eq {t : Text} (h : Tidy t) : question t = t := by
  have hmargins := @question_margins [] [] t h (by simp) (by simp)
  rwa [List.nil_append, List.append_nil] at hmargins

/-- Texts with anything between them are tidy if the first one begins and the last one ends so. -/
theorem Tidy.append {a b : Text} (ha : Tidy a) (hb : Tidy b) (t : Text) : Tidy (a ++ t ++ b) where
  ne_nil := by simp [ha.ne_nil]
  first := by
    rw [List.append_assoc, List.head?_append_of_ne_nil a ha.ne_nil]
    exact ha.first
  last := by
    rw [List.getLast?_append_of_ne_nil _ hb.ne_nil]
    exact hb.last
  unasked := by
    rw [List.getLast?_append_of_ne_nil _ hb.ne_nil]
    exact hb.unasked

end Condition

/-! ### Nestings -/

namespace Nesting

/-- The nesting behind a text, unless it closes a parenthesis that was not opened. -/
def through? : Nesting → Text → Option Nesting
  | n, [] => some n
  | n, c :: t => if c = ')' && !n.quoted && n.depth == 0 then none else through? (n.next c) t

theorem through?_append (n : Nesting) (a b : Text) : n.through? (a ++ b) = (n.through? a).bind (through? · b) := by
  induction a generalizing n with
  | nil => rfl
  | cons c a ih =>
    simp only [List.cons_append, through?]
    split
    · rfl
    · exact ih _

/-- The same nesting inside one more pair of parentheses. -/
def deeper (n : Nesting) : Nesting := { n with depth := n.depth + 1 }

theorem isTop_deeper (n : Nesting) : n.deeper.isTop = false := by
  simp [isTop, deeper]

/-- A character that may come next comes next inside parentheses as well. -/
theorem next_deeper {n : Nesting} {c : Char} (h : (c = ')' && !n.quoted && n.depth == 0) = false) :
    n.deeper.next c = (n.next c).deeper := by
  unfold next deeper
  dsimp only
  split
  · rfl
  · split
    · rfl
    · next hquoted =>
      split
      · rfl
      · split
        · next hclose =>
          have hdepth : n.depth ≠ 0 := by
            intro hzero
            simp [hclose, hquoted, hzero] at h
          have hpred : n.depth + 1 - 1 = n.depth - 1 + 1 := by omega
          rw [hpred]
        · rfl

/-- A text may stand inside parentheses where it may stand outside. -/
theorem through?_deeper {n n' : Nesting} {t : Text} (h : n.through? t = some n') :
    n.deeper.through? t = some n'.deeper := by
  induction t generalizing n with
  | nil =>
    cases h
    rfl
  | cons c t ih =>
    unfold through? at h ⊢
    split at h
    · cases h
    · next hc =>
      rw [Bool.not_eq_true] at hc
      rw [if_neg (by simp [deeper]), next_deeper hc]
      exact ih h

/-- What is no delimiter opens and closes nothing. -/
theorem next_of_not_delimiter {c : Char} (hc : isDelimiter c = false) (n : Nesting) : n.next c = n := by
  simp only [isDelimiter, Bool.or_eq_false_iff, beq_eq_false_iff_ne] at hc
  simp [next, hc]

/-- It may stand at the beginning of any text. -/
theorem through?_of_not_delimiter {c : Char} (hc : isDelimiter c = false) (n : Nesting) (t : Text) :
    n.through? (c :: t) = n.through? t := by
  have hclose : c ≠ ')' := by
    rintro rfl
    cases hc
  rw [through?, if_neg (by simp [hclose]), next_of_not_delimiter hc]

/-- A text without delimiters is passed at any nesting. -/
theorem through?_plain {n : Nesting} {t : Text} (h : ∀ c ∈ t, isDelimiter c = false) : n.through? t = some n := by
  induction t with
  | nil => rfl
  | cons c t ih =>
    rw [through?_of_not_delimiter (h c List.mem_cons_self), ih fun d hd => h d (List.mem_cons_of_mem c hd)]

theorem isDelimiter_of_isBlank {c : Char} (hc : Text.isBlank c = true) : isDelimiter c = false := by
  cases hdelimiter : isDelimiter c with
  | false => rfl
  | true =>
    simp only [isDelimiter, Bool.or_eq_true, beq_iff_eq] at hdelimiter
    rcases hdelimiter with (rfl | rfl) | rfl <;> cases hc

/-- Blanks open and close nothing. -/
theorem through?_blanks {n : Nesting} {t : Text} (h : ∀ c ∈ t, Text.isBlank c = true) : n.through? t = some n :=
  through?_plain fun c hc => isDelimiter_of_isBlank (h c hc)

/-- A quotation is passed with all that would open, close or separate outside of it. -/
theorem through?_quoted {a : Text} (ha : '"' ∉ a) (r : Text) :
    through? { quoted := true } (a ++ '"' :: r) = through? {} r := by
  induction a with
  | nil => rfl
  | cons c a ih =>
    rw [List.mem_cons, not_or] at ha
    rw [List.cons_append, through?, if_neg (by simp), next, if_neg (Ne.symm ha.1), if_pos rfl, ih ha.2]

end Nesting

/-- The search for a closing parenthesis passes a character that is not the one looked for. -/
theorem Text.closing_cons {n : Nesting} {c : Char} (hc : (c = ')' && !n.quoted && n.depth == 0) = false) (t : Text) :
    closing n.deeper.depth n.quoted (c :: t) =
      (closing (n.next c).deeper.depth (n.next c).quoted t).map fun p => (c :: p.1, p.2) := by
  rw [← Nesting.next_deeper hc, closing]
  unfold Nesting.next Nesting.deeper
  split
  · rfl
  · cases hquoted : n.quoted with
    | true => simp [hquoted]
    | false =>
      simp only [Bool.not_false, Bool.true_and, decide_eq_true_eq, Bool.false_eq_true, if_false]
      split
      · rfl
      · split
        · next hclose =>
          have hdepth : n.depth ≠ 0 := by
            intro hzero
            simp [hclose, hquoted, hzero] at hc
          rw [if_neg (Nat.succ_ne_zero _), if_neg (by omega)]
        · rw [hquoted]

/-- The parenthesis that closes the first one comes behind a text in which all others are closed. -/
theorem Text.closing_through {n n' : Nesting} {t : Text} (h : n.through? t = some n') (r : Text) :
    closing n.deeper.depth n.quoted (t ++ r) =
      (closing n'.deeper.depth n'.quoted r).map fun p => (t ++ p.1, p.2) := by
  induction t generalizing n with
  | nil =>
    cases h
    simp
  | cons c t ih =>
    unfold Nesting.through? at h
    split at h
    · cases h
    · next hc =>
      rw [Bool.not_eq_true] at hc
      rw [List.cons_append, closing_cons hc, ih h, Option.map_map]
      rfl

/-- What stands in parentheses is found if nothing in it is left open. -/
theorem Text.enclosed?_of_through {t : Text} (h : Nesting.through? {} t = some {}) :
    enclosed? ('(' :: (t ++ [')'])) = some t := by
  have hclosing : closing 0 false ('(' :: (t ++ [')'])) = some ('(' :: t, []) := by
    have hinside := closing_through h [')']
    rw [closing, if_neg (by decide), if_pos (by decide)]
    show (closing (Nesting.deeper {}).depth _ _).map _ = _
    rw [hinside]
    simp [closing, Nesting.deeper]
  unfold enclosed?
  rw [hclosing]
  rfl

/-! ### Connectives -/

namespace Connective

variable {k : Connective} {n n' : Nesting} {before before' : Option Char} {c : Char} {t r : Text}

theorem isBoundary_iff {o : Option Char} : isBoundary o = true ↔ ∀ c ∈ o, Text.isNamePart c = false := by
  cases o <;> simp [isBoundary]

/-- No name goes on with blanks, nor behind them if it could not without them. -/
theorem isBoundary_blanks {m : Text} (hm : ∀ c ∈ m, Text.isBlank c = true) (hr : isBoundary r.head? = true) :
    isBoundary (m ++ r).head? = true :=
  isBoundary_iff.mpr
    (Text.forall_head?_append (fun c hc => Text.isNamePart_of_isBlank (hm c hc)) (isBoundary_iff.mp hr))

/-- Names are made of the characters of the words for connectives. -/
theorem isNamePart_of_mem_word (h : c ∈ k.word) : Text.isNamePart c = true := by
  cases k <;> exact List.all_eq_true.mp rfl c h

/-- No connective begins with a character: it is not the sign, and no word stands there between boundaries. -/
theorem after?_eq_none_iff :
    k.after? before (c :: t) = none ↔
      c ≠ k.single ∧
        ∀ rest, c :: t = k.word ++ rest → ¬(isBoundary before = true ∧ isBoundary rest.head? = true) := by
  have hdoubled : k.doubled = [k.single, k.single] := by cases k <;> rfl
  unfold after?
  by_cases hc : c = k.single
  · refine iff_of_false ?_ (fun h => h.1 hc)
    rw [hdoubled, hc]
    simp only [Text.after?, if_true]
    split <;> simp
  · have hsingle : Text.after? [k.single] (c :: t) = none := if_neg (Ne.symm hc)
    have hno : Text.after? k.doubled (c :: t) = none := by
      rw [hdoubled]
      exact if_neg (Ne.symm hc)
    rw [hno, hsingle]
    dsimp only
    refine Iff.trans ?_ (and_iff_right hc).symm
    cases hword : Text.after? k.word (c :: t) with
    | none =>
      refine iff_of_true rfl fun rest hrest => ?_
      rw [Text.after?_eq_some_iff.mpr hrest] at hword
      cases hword
    | some rest =>
      have hrest := Text.after?_eq_some_iff.mp hword
      dsimp only
      constructor
      · intro hnone other hother hboth
        obtain rfl : other = rest := List.append_cancel_left (hother.symm.trans hrest)
        rw [if_pos (by rw [hboth.1, hboth.2]; rfl)] at hnone
        cases hnone
      · intro h
        rw [if_neg]
        intro hboth
        exact h rest hrest (by simpa using hboth)

/-- A character with which neither the sign nor the word begins. -/
theorem after?_of_ne (hsign : c ≠ k.single) (hword : k.word.head? ≠ some c) : k.after? before (c :: t) = none := by
  refine after?_eq_none_iff.mpr ⟨hsign, fun rest hrest => ?_⟩
  have hhead := congrArg List.head? hrest
  rw [List.head?_append_of_ne_nil k.word (by cases k <;> exact List.cons_ne_nil _ _)] at hhead
  exact absurd hhead.symm hword

/-- A character with which no connective begins is passed, be it open to connectives or not. -/
theorem splitFrom?_cons (h : k.after? before (c :: t) = none) :
    k.splitFrom? before n (c :: t) = (k.splitFrom? (some c) (n.next c) t).map fun p => (c :: p.1, p.2) := by
  rw [splitFrom?]
  simp only [h, ite_self]

/-- So is a character where no connective counts. -/
theorem splitFrom?_cons_of_covered (h : (Nesting.isDelimiter c || !n.isTop) = true) :
    k.splitFrom? before n (c :: t) = (k.splitFrom? (some c) (n.next c) t).map fun p => (c :: p.1, p.2) := by
  rw [splitFrom?, if_pos h]

/-- A text in which no connective is found has none at its beginning that would count. -/
theorem of_splitFrom?_cons (h : k.splitFrom? before n (c :: t) = none) :
    ((Nesting.isDelimiter c || !n.isTop) = true ∨ k.after? before (c :: t) = none) ∧
      k.splitFrom? (some c) (n.next c) t = none := by
  rw [splitFrom?] at h
  by_cases hcovered : (Nesting.isDelimiter c || !n.isTop) = true
  · rw [if_pos hcovered] at h
    exact ⟨.inl hcovered, Option.map_eq_none_iff.mp h⟩
  · rw [if_neg hcovered] at h
    cases hafter : k.after? before (c :: t) with
    | none =>
      rw [hafter] at h
      exact ⟨.inr rfl, Option.map_eq_none_iff.mp h⟩
    | some rest =>
      rw [hafter] at h
      cases h

/-- No name goes over from one text into the next. -/
def Apart (t r : Text) : Prop := isBoundary t.getLast? = true ∨ isBoundary r.head? = true

/-- A text that ends in the same way is as far apart from what follows. -/
theorem Apart.congr {u : Text} (h : Apart t r) (hlast : t.getLast? = u.getLast?) : Apart u r := by
  rwa [Apart, ← hlast]

/-- The end of a text is as far apart from what follows. -/
theorem Apart.tail (h : Apart (c :: t) r) : Apart t r := by
  cases t with
  | nil => exact .inl rfl
  | cons d t => rwa [Apart, List.getLast?_cons_cons] at h

/-- Where no connective begins, none begins if more text follows, and after a character that is no better boundary. -/
theorem after?_append (h : k.after? before (c :: t) = none) (hr : Apart (c :: t) r)
    (hb : isBoundary before' = true → isBoundary before = true) : k.after? before' (c :: t ++ r) = none := by
  obtain ⟨hsign, hword⟩ := after?_eq_none_iff.mp h
  refine after?_eq_none_iff.mpr ⟨hsign, fun rest hrest hboth => ?_⟩
  -- The word ends in the first text, or it goes over into the second one.
  rcases List.append_eq_append_iff.mp (show (c :: t) ++ r = k.word ++ rest from hrest) with
    ⟨more, hmore, hr'⟩ | ⟨left, hleft, hrest'⟩
  · have hlast : ∀ d ∈ (c :: t).getLast?, Text.isNamePart d = true := fun d hd =>
      isNamePart_of_mem_word (k := k) (by rw [hmore]; exact List.mem_append_left _ (List.mem_of_getLast? hd))
    have hlastIs : isBoundary (c :: t).getLast? = false := by
      obtain ⟨d, hd⟩ := Option.isSome_iff_exists.mp (List.getLast?_isSome.mpr (List.cons_ne_nil c t))
      rw [hd]
      simp [isBoundary, hlast d hd]
    cases more with
    | nil =>
      rw [List.append_nil] at hmore
      rcases hr with hr | hr
      · rw [hlastIs] at hr
        cases hr
      · refine hword [] (by rw [hmore, List.append_nil]) ⟨hb hboth.1, rfl⟩
    | cons d more =>
      rcases hr with hr | hr
      · rw [hlastIs] at hr
        cases hr
      · have hd : Text.isNamePart d = true := isNamePart_of_mem_word (k := k) (by rw [hmore]; simp)
        rw [hr'] at hr
        simp [isBoundary, hd] at hr
  · refine hword left hleft ⟨hb hboth.1, ?_⟩
    cases left with
    | nil => rfl
    | cons d left =>
      rw [hrest'] at hboth
      exact hboth.2

/-- **A text without connectives is passed**, whatever follows it. -/
theorem splitFrom?_append (h : k.splitFrom? before n t = none) (hthrough : n.through? t = some n') (hr : Apart t r)
    (hb : isBoundary before' = true → isBoundary before = true) :
    k.splitFrom? before' n (t ++ r) =
      (k.splitFrom? (t.getLast?.or before') n' r).map fun p => (t ++ p.1, p.2) := by
  induction t generalizing before before' n with
  | nil =>
    cases hthrough
    simp
  | cons c t ih =>
    obtain ⟨hfirst, hrest⟩ := of_splitFrom?_cons h
    have hpassed : k.splitFrom? before' n (c :: (t ++ r)) =
        (k.splitFrom? (some c) (n.next c) (t ++ r)).map fun p => (c :: p.1, p.2) := by
      rcases hfirst with hcovered | hnone
      · exact splitFrom?_cons_of_covered hcovered
      · exact splitFrom?_cons (after?_append hnone hr hb)
    have hnext : (n.next c).through? t = some n' := by
      unfold Nesting.through? at hthrough
      split at hthrough
      · cases hthrough
      · exact hthrough
    have hlast : (c :: t).getLast?.or before' = t.getLast?.or (some c) := by
      rw [List.getLast?_cons]
      cases t.getLast? <;> rfl
    rw [List.cons_append, hpassed, ih hrest hnext hr.tail id, hlast, Option.map_map]
    rfl

/-- **A text in parentheses is passed**, with all its connectives. -/
theorem splitFrom?_deeper (h : n.through? t = some n') :
    k.splitFrom? before n.deeper (t ++ r) =
      (k.splitFrom? (t.getLast?.or before) n'.deeper r).map fun p => (t ++ p.1, p.2) := by
  induction t generalizing before n with
  | nil =>
    cases h
    simp
  | cons c t ih =>
    unfold Nesting.through? at h
    split at h
    · cases h
    · next hc =>
      rw [Bool.not_eq_true] at hc
      have hlast : (c :: t).getLast?.or before = t.getLast?.or (some c) := by
        rw [List.getLast?_cons]
        cases t.getLast? <;> rfl
      rw [List.cons_append, splitFrom?_cons_of_covered (by simp [Nesting.isTop_deeper]), Nesting.next_deeper hc,
        ih h, hlast, Option.map_map]
      rfl

/-- Blanks are passed. -/
theorem splitFrom?_blanks (h : ∀ c ∈ t, Text.isBlank c = true) :
    k.splitFrom? before {} (t ++ r) =
      (k.splitFrom? (t.getLast?.or before) {} r).map fun p => (t ++ p.1, p.2) := by
  induction t generalizing before with
  | nil => simp
  | cons c t ih =>
    have hblank : Text.isBlank c = true := h c List.mem_cons_self
    have hnone : k.after? before (c :: (t ++ r)) = none := by
      refine after?_of_ne ?_ fun hhead => ?_
      · rintro rfl
        revert hblank
        cases k <;> decide
      · have hname := isNamePart_of_mem_word (List.mem_of_mem_head? hhead)
        rw [Text.isNamePart_of_isBlank hblank] at hname
        cases hname
    have hnext : Nesting.next {} c = {} := by
      have hne : c ≠ '"' ∧ c ≠ '(' ∧ c ≠ ')' := by
        refine ⟨?_, ?_, ?_⟩ <;> rintro rfl <;> revert hblank <;> decide
      simp [Nesting.next, hne]
    have hlast : (c :: t).getLast?.or before = t.getLast?.or (some c) := by
      rw [List.getLast?_cons]
      cases t.getLast? <;> rfl
    rw [List.cons_append, splitFrom?_cons hnone, hnext, ih fun d hd => h d (List.mem_cons_of_mem c hd), hlast,
      Option.map_map]
    rfl

end Connective

/-! ### Texts without connectives -/

/-- How a negation is written. -/
inductive Negation where
  | word
  | sign
  deriving DecidableEq

/-- A negation as it is written. -/
def Negation.text : Negation → Text
  | word => ['N', 'O', 'T']
  | sign => ['!']

namespace Condition

/-- No parenthesis and no quotation is open behind the text, and no connective of either sort is found in it. -/
structure Unbroken (t : Text) : Prop where
  closed : Nesting.through? {} t = some {}
  uncut : ∀ k : Connective, k.split? t = none

namespace Unbroken

variable {t : Text}

/-- An unbroken text is passed, whatever is before it and behind it. -/
theorem splitFrom?_append (h : Unbroken t) (k : Connective) (before : Option Char) {r : Text}
    (hr : Connective.Apart t r) :
    k.splitFrom? before {} (t ++ r) = (k.splitFrom? (t.getLast?.or before) {} r).map fun p => (t ++ p.1, p.2) :=
  Connective.splitFrom?_append (h.uncut k) h.closed hr fun _ => rfl

theorem splitFrom?_eq_none (h : Unbroken t) (k : Connective) (before : Option Char) :
    k.splitFrom? before {} t = none := by
  have hpassed := h.splitFrom?_append k before (r := []) (.inr rfl)
  rw [List.append_nil] at hpassed
  rw [hpassed]
  rfl

/-- **Parentheses** hide the connectives between them. -/
theorem enclosed (h : Nesting.through? {} t = some {}) : Unbroken ('(' :: (t ++ [')'])) where
  closed := by
    show Nesting.through? (Nesting.deeper {}) (t ++ [')']) = some {}
    rw [Nesting.through?_append, Nesting.through?_deeper h]
    rfl
  uncut k := by
    unfold Connective.split?
    rw [Connective.splitFrom?_cons_of_covered rfl]
    show (k.splitFrom? _ (Nesting.deeper {}) _).map _ = none
    rw [Connective.splitFrom?_deeper h, Connective.splitFrom?_cons_of_covered rfl]
    rfl

/-- **A negation** is no connective. -/
theorem negated (h : Unbroken t) (s : Negation) {m : Text} (hm : ∀ c ∈ m, Text.isBlank c = true)
    (happart : Connective.Apart s.text (m ++ t)) : Unbroken (s.text ++ (m ++ t)) where
  closed := by
    have hs : Nesting.through? {} s.text = some {} := by cases s <;> rfl
    rw [Nesting.through?_append, hs, Option.bind_some, Nesting.through?_append, Nesting.through?_blanks hm]
    exact h.closed
  uncut k := by
    have hs : Unbroken s.text := ⟨by cases s <;> rfl, fun k => by cases s <;> cases k <;> rfl⟩
    unfold Connective.split?
    rw [hs.splitFrom?_append k none happart, Connective.splitFrom?_blanks hm, h.splitFrom?_eq_none]
    rfl

end Unbroken

/-- A negation is found where it is written, and what is negated without the blanks before it. -/
theorem negated?_text (s : Negation) {m t : Text} (hm : ∀ c ∈ m, Text.isBlank c = true) (ht : Tidy t)
    (happart : Connective.Apart s.text (m ++ t)) (hequal : (m ++ t).head? ≠ some '=') :
    negated? (s.text ++ (m ++ t)) = some t := by
  have htrim : Text.trimStart (m ++ t) = t := Text.trimStart_append hm ht.first
  obtain ⟨c, u, hu⟩ := List.exists_cons_of_ne_nil (l := m ++ t) (by simp [ht.ne_nil])
  rw [hu] at htrim happart hequal ⊢
  cases s with
  | word =>
    have hc : Text.isNamePart c = false := by
      rcases happart with h | h
      · cases h
      · simpa [Connective.isBoundary] using h
    simp [negated?, Negation.text, Text.after?, hc, htrim]
  | sign =>
    have hc : c ≠ '=' := fun h => hequal (congrArg some h)
    have hword : Text.after? "NOT".toList ('!' :: c :: u) = none := by
      exact if_neg (by decide)
    show negated? ('!' :: c :: u) = some t
    unfold negated?
    rw [hword]
    dsimp only
    split
    · next h =>
      cases h
      exact absurd rfl hc
    · next rest _ h =>
      cases h
      rw [htrim]
    · next hother => exact absurd rfl (hother _)

end Condition

/-! ### What is found decides what is meant -/

section

variable {σ : Type} (env : Environment σ) {t : Text}

/-- Texts that differ in margins and in a question mark at the end mean the same. -/
theorem evaluateCondition_congr {u : Text} (h : Condition.question t = Condition.question u) :
    evaluateCondition env t = evaluateCondition env u := by
  unfold evaluateCondition
  rw [Condition.read, Condition.read, h]

theorem evaluateCondition_of_and {left right : Text}
    (h : Connective.and.split? (Condition.question t) = some (left, right)) :
    evaluateCondition env t =
      evaluateCondition env left >>= fun a => if a then evaluateCondition env right else pure false := by
  have hread : Condition.read t = .both (Condition.read left) (Condition.read right) := by
    rw [Condition.read]
    split
    · next l r hlr =>
      rw [h] at hlr
      cases hlr
      rfl
    · next hnone =>
      rw [h] at hnone
      cases hnone
  unfold evaluateCondition
  rw [hread]
  rfl

theorem evaluateCondition_of_or {left right : Text} (hand : Connective.and.split? (Condition.question t) = none)
    (h : Connective.or.split? (Condition.question t) = some (left, right)) :
    evaluateCondition env t =
      evaluateCondition env left >>= fun a => if a then pure true else evaluateCondition env right := by
  have hread : Condition.read t = .either (Condition.read left) (Condition.read right) := by
    rw [Condition.read, hand, h]
  unfold evaluateCondition
  rw [hread]
  rfl

theorem evaluateCondition_of_negated {operand : Text} (hcut : ∀ k : Connective, k.split? (Condition.question t) = none)
    (h : negated? (Condition.question t) = some operand) :
    evaluateCondition env t = evaluateCondition env operand >>= fun a => pure !a := by
  have hread : Condition.read t = .negation (Condition.read operand) := by
    rw [Condition.read, hcut, hcut, h]
  unfold evaluateCondition
  rw [hread]
  rfl

theorem evaluateCondition_of_enclosed {inner : Text} (hcut : ∀ k : Connective, k.split? (Condition.question t) = none)
    (hnot : negated? (Condition.question t) = none)
    (h : Text.enclosed? (Condition.question t) = some inner) :
    evaluateCondition env t = evaluateCondition env inner := by
  have hread : Condition.read t = Condition.read inner := by
    rw [Condition.read, hcut, hcut, hnot, h]
  unfold evaluateCondition
  rw [hread]

/-- Nothing is found: the text is a comparison or a value. -/
theorem evaluateCondition_of_readAtom (hcut : ∀ k : Connective, k.split? (Condition.question t) = none)
    (hnot : negated? (Condition.question t) = none) (hin : Text.enclosed? (Condition.question t) = none) :
    evaluateCondition env t = (Condition.readAtom (Condition.question t)).eval env := by
  unfold evaluateCondition
  rw [Condition.read, hcut, hcut, hnot, hin]

end

end Flowchart
