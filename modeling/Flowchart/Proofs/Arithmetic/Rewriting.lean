import Flowchart.Proofs.Arithmetic.Calculations
import Flowchart.Proofs.Arithmetic.FloatTexts

/-!
# The rewriting of texts comes to an end

Arithmetic on a text is done by three loops.  The first one merges signs, the second one carries out products, and the
third one sums; each goes on as long as there is something left for it.  Nothing is known of the text: it may be no
calculation at all, with points and operators anywhere and with digits of any script.

Every merger makes the text shorter.  An operation need not: its result may be longer than what it stands for, and it
may begin with a minus, which is the sign of an operator.  What gets less is the number of operators that stand directly
behind a digit.  The operator of an operation stands behind one.  A result has no operator in it but for a minus in
front, and no digit stands before that: where a digit goes on to a numeral or is followed by a minus and a numeral, the
operation would have been found from that digit on.

* `Settles` — a loop ends after a number of rounds, with a text for which nothing is left to do.
* `mergeOnce?`, `settles_mergeSigns` — the loop for signs.
* `pending` — the operators behind digits.
* `Operation.plainBehindMinuses_resultText` — the text of a result is a plain text, perhaps with a minus before it.
* `not_digit_before` — no digit stands before the operation that is carried out, if a minus is an operator for it.
* **`pending_reduceOnce?`** — every operation that is carried out leaves fewer operators behind digits.
* `settles_reduce` — the loops for products and sums.
* **`fold_settles`** — all three loops, on every text.
-/

namespace Flowchart.Arithmetic

/-! ### Loops -/

/-- A loop that rewrites a text as long as it can leads, after a number of rounds, to a text that it leaves alone. -/
inductive Settles (next? : Text → Option Text) : Nat → Text → Text → Prop
  | stop {t : Text} (h : next? t = none) : Settles next? 0 t t
  | round {n : Nat} {t u v : Text} (h : next? t = some u) (rest : Settles next? n u v) : Settles next? (n + 1) t v

/-- The text with its first merger applied; nothing when there is none. -/
def mergeOnce? (t : Text) : Option Text := (mergers.find? (·.occurs t)).map (·.apply t)

/-- **The loop for signs** ends, after no more rounds than there are characters. -/
theorem settles_mergeSigns (t : Text) : ∃ n ≤ t.length, Settles mergeOnce? n t (mergeSigns t) := by
  fun_induction mergeSigns t with
  | case1 t m hfind ih =>
    obtain ⟨n, hn, hrest⟩ := ih
    have hshorter : (m.apply t).length < t.length := Merger.length_apply_lt (by simpa using List.find?_some hfind)
    refine ⟨n + 1, by omega, .round ?_ hrest⟩
    unfold mergeOnce?
    rw [hfind]
    rfl
  | case2 t hfind =>
    refine ⟨0, Nat.zero_le _, .stop ?_⟩
    unfold mergeOnce?
    rw [hfind]
    rfl

/-! ### Operators behind digits -/

/-- The number of operators of some kind that stand directly behind a digit, in a text that follows a character. -/
def pending (among : Char → Bool) (before : Option Char) : Text → Nat
  | [] => 0
  | c :: t => (if among c && before.any Text.isDigit then 1 else 0) + pending among (some c) t

/-- A text without operators. -/
def Plain (t : Text) : Prop := ∀ c ∈ t, isOperator c = false

section

variable {among : Char → Bool} {before : Option Char} {t u : Text}

theorem pending_le_countP (before : Option Char) (t : Text) : pending among before t ≤ t.countP among := by
  induction t generalizing before with
  | nil => exact Nat.zero_le _
  | cons c t ih =>
    have hrest := ih (some c)
    rw [pending, List.countP_cons]
    split <;> split <;> grind

/-- What stands before a text counts for its first character only, and a digit counts most. -/
theorem pending_le_of_digit (h : before.any Text.isDigit = true) (b : Option Char) (t : Text) :
    pending among b t ≤ pending among before t := by
  cases t with
  | nil => exact le_rfl
  | cons c t =>
    rw [pending, pending]
    split <;> split <;> grind

theorem pending_append (t u : Text) :
    pending among before (t ++ u) = pending among before t + pending among (t.getLast?.or before) u := by
  induction t generalizing before with
  | nil => rw [List.nil_append, List.getLast?_nil, Option.none_or, pending, Nat.zero_add]
  | cons c t ih =>
    have hlast : t.getLast?.or (some c) = (c :: t).getLast?.or before := by
      rw [List.getLast?_cons]
      cases t.getLast? <;> rfl
    rw [List.cons_append, pending, pending, ih, hlast, Nat.add_assoc]

theorem pending_plain (hamong : ∀ c, among c = true → isOperator c = true) (h : Plain t) :
    pending among before t = 0 := by
  induction t generalizing before with
  | nil => rfl
  | cons c t ih =>
    have hc : among c = false := by
      by_contra hc
      have hplain := h c List.mem_cons_self
      rw [hamong c (eq_true_of_ne_false hc)] at hplain
      cases hplain
    rw [pending, hc, ih fun d hd => h d (List.mem_cons_of_mem c hd)]
    rfl

end

/-! ### Texts of results -/

theorem plain_cons {c : Char} {t : Text} (hc : isOperator c = false) (h : Plain t) : Plain (c :: t) :=
  List.forall_mem_cons.mpr ⟨hc, h⟩

theorem plain_append {t u : Text} (ht : Plain t) (hu : Plain u) : Plain (t ++ u) :=
  List.forall_mem_append.mpr ⟨ht, hu⟩

theorem isOperator_of_isProduct (c : Char) (h : isProduct c = true) : isOperator c = true := by
  rcases Bool.or_eq_true_iff.mp h with h | h <;> simp [isOperator, h]

theorem isOperator_of_isSum (c : Char) (h : isSum c = true) : isOperator c = true := by
  rcases Bool.or_eq_true_iff.mp h with h | h <;> simp [isOperator, h]

theorem isOperator_of_isDigit {c : Char} (h : c.isDigit = true) : isOperator c = false := by
  by_contra hoperator
  have hsigns : ((c = '+' ∨ c = '-') ∨ c = '*') ∨ c = '/' := by
    simpa only [isOperator, Bool.not_eq_false, Bool.or_eq_true, beq_iff_eq] using hoperator
  rcases hsigns with ((rfl | rfl) | rfl) | rfl <;> cases h

theorem plain_digits (n : Numeral) : Plain n.digits := fun c hc => isOperator_of_isDigit (n.isDigit c hc)

theorem plain_of_isMagnitude {t : Text} (h : Decimal.IsMagnitude t) : Plain t := by
  cases h with
  | notANumber | infinite => simp [Plain, isOperator]
  | decimal whole fraction => exact plain_append (plain_digits whole) (plain_cons rfl (plain_digits fraction))

/-- A plain text with minuses before it. -/
def PlainBehindMinuses (t : Text) : Prop := ∃ signs u, t = signs ++ u ∧ (∀ c ∈ signs, c = '-') ∧ Plain u

theorem Plain.behindMinuses {t : Text} (h : Plain t) : PlainBehindMinuses t := ⟨[], t, rfl, by simp, h⟩

theorem PlainBehindMinuses.minus {t : Text} (h : PlainBehindMinuses t) : PlainBehindMinuses ('-' :: t) := by
  obtain ⟨signs, u, rfl, hsigns, hu⟩ := h
  exact ⟨'-' :: signs, u, rfl, List.forall_mem_cons.mpr ⟨rfl, hsigns⟩, hu⟩

theorem plainBehindMinuses_withSign (negative : Bool) {t : Text} (h : Plain t) :
    PlainBehindMinuses (Decimal.withSign negative t) := by
  cases negative with
  | false => exact h.behindMinuses
  | true => exact h.behindMinuses.minus

theorem plainBehindMinuses_integerText (n : Int) : PlainBehindMinuses (Decimal.integerText n) := by
  cases n with
  | ofNat n => exact (plain_digits (Figure.digitsOf n)).behindMinuses
  | negSucc n => exact (plain_digits (Figure.digitsOf (n + 1))).behindMinuses.minus

/-- Floats that are infinite or not numbers are written without operators, too. -/
theorem plainBehindMinuses_display (x : Float) : PlainBehindMinuses (Decimal.display x) := by
  obtain ⟨negative, t, htext, ht⟩ := Decimal.display_eq x
  rw [htext]
  exact plainBehindMinuses_withSign negative (plain_of_isMagnitude ht)

namespace Operation

/-- **The text of a result** has no operators in it but for minuses in front. -/
theorem plainBehindMinuses_resultText (o : Operation) : PlainBehindMinuses o.resultText := by
  unfold resultText
  cases hexact : o.exactText? with
  | none => exact plainBehindMinuses_display _
  | some t =>
    unfold exactText? at hexact
    split at hexact
    · cases hexact
    · split at hexact
      · obtain ⟨n, -, rfl⟩ := Option.map_eq_some_iff.mp hexact
        exact plainBehindMinuses_integerText _
      · cases hexact

theorem plainBehindMinuses_settle (o : Operation) (before : Option Char) : PlainBehindMinuses (o.settle before) := by
  unfold settle
  split
  · split
    · exact (plainBehindMinuses_resultText _).minus
    · exact plainBehindMinuses_resultText _
  · exact plainBehindMinuses_resultText _

end Operation

/-! ### The parts of an operation -/

section

variable {among : Char → Bool} {before : Option Char} {t u n r : Text} {o : Operation} {c : Char}

/-- A numeral ends with a digit. -/
def EndsInDigit (t : Text) : Prop := t.getLast?.any Text.isDigit = true

theorem endsInDigit_takeWhile (h : t.takeWhile Text.isDigit ≠ []) : EndsInDigit (t.takeWhile Text.isDigit) := by
  have hlast := List.mem_takeWhile_imp (List.getLast_mem h)
  unfold EndsInDigit
  rw [List.getLast?_eq_some_getLast h]
  exact hlast

theorem endsInDigit_append (t : Text) (h : EndsInDigit u) : EndsInDigit (t ++ u) := by
  unfold EndsInDigit at h ⊢
  rw [List.getLast?_append]
  cases hu : u.getLast? with
  | none => rw [hu] at h; cases h
  | some c => rw [hu] at h; exact h

/-- A numeral without a sign is what the text begins with, and its last character is a digit. -/
theorem eq_of_unsignedPart? (h : unsignedPart? t = some (n, r)) : t = n ++ r ∧ EndsInDigit n := by
  have hsplit : t.takeWhile Text.isDigit ++ t.dropWhile Text.isDigit = t := List.takeWhile_append_dropWhile
  unfold unsignedPart? at h
  dsimp only at h
  split at h
  · cases h
  · next hempty =>
    have hwhole := endsInDigit_takeWhile (List.isEmpty_eq_false_iff.mp (eq_false_of_ne_true hempty))
    split at h
    · next more hrest =>
      split at h
      · cases h
        exact ⟨hsplit.symm, hwhole⟩
      · next hfraction =>
        cases h
        have hends := endsInDigit_takeWhile (List.isEmpty_eq_false_iff.mp (eq_false_of_ne_true hfraction))
        refine ⟨?_, endsInDigit_append _ (endsInDigit_append ['.'] hends)⟩
        rw [List.append_assoc, List.cons_append, List.takeWhile_append_dropWhile, ← hrest, hsplit]
    · cases h
      exact ⟨hsplit.symm, hwhole⟩

theorem eq_of_numeralPart? (h : numeralPart? t = some (n, r)) : t = n ++ r ∧ EndsInDigit n := by
  unfold numeralPart? at h
  split at h
  · obtain ⟨⟨m, s⟩, hpart, heq⟩ := Option.map_eq_some_iff.mp h
    cases heq
    obtain ⟨rfl, hends⟩ := eq_of_unsignedPart? hpart
    exact ⟨rfl, endsInDigit_append ['-'] hends⟩
  · exact eq_of_unsignedPart? h

/-- An operation is two numerals with an operator between them. -/
theorem eq_of_operation? (h : operation? among t = some (o, r)) :
    t = o.left ++ o.operator :: (o.right ++ r) ∧
      EndsInDigit o.left ∧ among o.operator = true ∧ EndsInDigit o.right := by
  unfold operation? at h
  split at h
  · next left c rest hleft =>
    split at h
    · next hc =>
      obtain ⟨⟨right, s⟩, hright, heq⟩ := Option.map_eq_some_iff.mp h
      cases heq
      obtain ⟨rfl, hlast⟩ := eq_of_numeralPart? hleft
      obtain ⟨rfl, hlast'⟩ := eq_of_numeralPart? hright
      exact ⟨rfl, hlast, hc, hlast'⟩
    · cases h
  · cases h

/-! ### Digits before an operation -/

/-- A digit goes on to the numeral behind it. -/
theorem unsignedPart?_cons (hc : Text.isDigit c = true) (h : unsignedPart? t = some (n, r)) :
    unsignedPart? (c :: t) = some (c :: n, r) := by
  unfold unsignedPart? at h ⊢
  rw [List.takeWhile_cons_of_pos hc, List.dropWhile_cons_of_pos hc]
  dsimp only at h ⊢
  rw [if_neg (by simp)]
  split at h
  · cases h
  · split at h
    · split at h
      · next hfraction =>
        cases h
        exact if_pos hfraction
      · next hfraction =>
        cases h
        exact if_neg hfraction
    · cases h
      rfl

theorem numeralPart?_of_digit (hc : Text.isDigit c = true) : numeralPart? (c :: t) = unsignedPart? (c :: t) := by
  unfold numeralPart?
  split
  · next rest heq =>
    rw [(List.cons.inj heq).1] at hc
    cases hc
  · rfl

/-- What a numeral without a sign begins with is no minus. -/
theorem numeralPart?_of_unsignedPart? (h : unsignedPart? t = some (n, r)) : numeralPart? t = some (n, r) := by
  unfold numeralPart?
  split
  · cases h
  · exact h

/-- No operation begins at a digit before the text.  This is what is known of the text behind the places at which no
operation has been found. -/
def NoneBefore (among : Char → Bool) (before : Option Char) (t : Text) : Prop :=
  ∀ c ∈ before, Text.isDigit c = true → operation? among (c :: t) = none

/-- **The first operation of a text does not stand behind a digit** if a minus is an operator for it: the operation would
have been found from that digit on. -/
theorem not_digit_before (hminus : among '-' = true) (hnone : NoneBefore among before t)
    (h : operation? among t = some (o, r)) : before.any Text.isDigit = false := by
  by_contra hdigit
  obtain ⟨c, rfl, hc⟩ : ∃ c, before = some c ∧ Text.isDigit c = true := by
    simpa [Option.any_eq_true] using hdigit
  replace hnone := hnone c rfl hc
  unfold operation? at h hnone
  rw [numeralPart?_of_digit hc] at hnone
  split at h
  · next left d rest hleft =>
    unfold numeralPart? at hleft
    split at hleft
    · -- The minus is an operator between the digit and the numeral.
      next more =>
      obtain ⟨⟨m, s⟩, hpart, -⟩ := Option.map_eq_some_iff.mp hleft
      have hone : unsignedPart? (c :: '-' :: more) = some ([c], '-' :: more) := by
        have hsign : Text.isDigit '-' = false := rfl
        unfold unsignedPart?
        rw [List.takeWhile_cons_of_pos hc, List.dropWhile_cons_of_pos hc, List.takeWhile_cons_of_neg (by simp [hsign]),
          List.dropWhile_cons_of_neg (by simp [hsign])]
        rfl
      rw [hone] at hnone
      dsimp only at hnone
      rw [if_pos hminus, numeralPart?_of_unsignedPart? hpart] at hnone
      cases hnone
    · -- The digit belongs to the numeral.
      rw [unsignedPart?_cons hc hleft] at hnone
      dsimp only at hnone
      split at h
      · next hd =>
        obtain ⟨p, hright, -⟩ := Option.map_eq_some_iff.mp h
        rw [if_pos hd, hright] at hnone
        cases hnone
      · cases h
  · cases h

/-! ### One operation -/

theorem pending_plainBehindMinuses (hamong : ∀ c, among c = true → isOperator c = true)
    (hbefore : among '-' = true → before.any Text.isDigit = false) (h : PlainBehindMinuses t) :
    pending among before t = 0 := by
  obtain ⟨signs, u, rfl, hsigns, hu⟩ := h
  induction signs generalizing before with
  | nil => exact pending_plain hamong hu
  | cons c signs ih =>
    obtain rfl := hsigns c List.mem_cons_self
    have hhead : (among '-' && before.any Text.isDigit) = false := by
      cases hminus : among '-' with
      | false => rfl
      | true => exact hbefore hminus
    have hrest : pending among (some '-') (signs ++ u) = 0 :=
      ih (fun _ => rfl) fun d hd => hsigns d (List.mem_cons_of_mem _ hd)
    rw [List.cons_append, pending, hhead, hrest]
    rfl

/-- The operator of an operation is no longer pending once the operation is carried out, and no other one is added. -/
theorem pending_settle (hamong : ∀ c, among c = true → isOperator c = true) (hnone : NoneBefore among before t)
    (h : operation? among t = some (o, r)) :
    pending among before (o.settle before ++ r) < pending among before t := by
  obtain ⟨rfl, hleft, hoperator, hright⟩ := eq_of_operation? h
  have hresult : pending among before (o.settle before) = 0 :=
    pending_plainBehindMinuses hamong (fun hminus => not_digit_before hminus hnone h) (o.plainBehindMinuses_settle before)
  have hlast : ∀ {n : Text} (b : Option Char), EndsInDigit n → (n.getLast?.or b).any Text.isDigit = true := by
    intro n b hn
    unfold EndsInDigit at hn
    cases hn' : n.getLast? with
    | none => rw [hn'] at hn; cases hn
    | some c => rw [hn'] at hn; exact hn
  have hrest : pending among ((o.settle before).getLast?.or before) r ≤
      pending among (o.right.getLast?.or (some o.operator)) r :=
    pending_le_of_digit (hlast (some o.operator) hright) _ r
  calc pending among before (o.settle before ++ r)
      = pending among ((o.settle before).getLast?.or before) r := by rw [pending_append, hresult, Nat.zero_add]
    _ ≤ pending among (o.right.getLast?.or (some o.operator)) r := hrest
    _ < 1 + pending among (some o.operator) (o.right ++ r) := by rw [pending_append]; omega
    _ = pending among (o.left.getLast?.or before) (o.operator :: (o.right ++ r)) := by
        rw [pending, hoperator, hlast before hleft]
        rfl
    _ ≤ pending among before (o.left ++ o.operator :: (o.right ++ r)) := by rw [pending_append]; omega

/-- **Every operation that is carried out leaves fewer operators behind digits.** -/
theorem pending_reduceOnce? (hamong : ∀ c, among c = true → isOperator c = true) (hnone : NoneBefore among before t)
    (h : reduceOnce? among before t = some u) : pending among before u < pending among before t := by
  fun_induction reduceOnce? among before t generalizing u with
  | case1 => cases h
  | case2 before c t o r hoperation =>
    cases h
    exact pending_settle hamong hnone hoperation
  | case3 before c t hoperation ih =>
    obtain ⟨v, hv, rfl⟩ := Option.map_eq_some_iff.mp h
    have hnone : NoneBefore among (some c) t := by
      rintro d ⟨⟩ -
      exact hoperation
    have hless := ih hnone hv
    rw [pending, pending]
    omega

end

/-! ### All operations -/

section

variable {among : Char → Bool}

/-- Rounds are enough if they are as many as the operators behind digits. -/
theorem settles_reduceRounds (hamong : ∀ c, among c = true → isOperator c = true) {rounds : Nat} {t : Text}
    (h : pending among none t ≤ rounds) :
    ∃ n ≤ pending among none t, Settles (reduceOnce? among none) n t (reduceRounds among rounds t) := by
  induction rounds generalizing t with
  | zero =>
    refine ⟨0, Nat.zero_le _, .stop ?_⟩
    by_contra hsome
    obtain ⟨u, hu⟩ := Option.ne_none_iff_exists'.mp hsome
    have hless := pending_reduceOnce? hamong (fun c hc => by cases hc) hu
    omega
  | succ rounds ih =>
    rw [reduceRounds]
    cases hnext : reduceOnce? among none t with
    | none => exact ⟨0, Nat.zero_le _, .stop hnext⟩
    | some u =>
      have hless := pending_reduceOnce? hamong (fun c hc => by cases hc) hnext
      obtain ⟨n, hn, hrest⟩ := ih (t := u) (by omega)
      exact ⟨n + 1, by omega, .round hnext hrest⟩

/-- **A loop that carries out operations** ends, after no more rounds than there are operators. -/
theorem settles_reduce (hamong : ∀ c, among c = true → isOperator c = true) (t : Text) :
    ∃ n ≤ t.countP among, Settles (reduceOnce? among none) n t (reduce among t) := by
  obtain ⟨n, hn, hsettles⟩ := settles_reduceRounds hamong (pending_le_countP none t)
  exact ⟨n, hn.trans (pending_le_countP none t), hsettles⟩

end

/-- **Arithmetic comes to an end on every text**, whatever its names stand for.  The loop for signs and the loops for
products and sums, each started on what the one before it leaves, end after no more rounds than there are characters or
operators in the text that they are started on, and the value is read from what the last one leaves. -/
theorem fold_settles (lookup : String → Option Value) (t : Text) :
    ∃ merged products sums : Text,
      (∃ n ≤ (operands lookup t).length, Settles mergeOnce? n (operands lookup t) merged) ∧
      (∃ n ≤ (dropPlus merged).countP isProduct, Settles (reduceOnce? isProduct none) n (dropPlus merged) products) ∧
      (∃ n ≤ products.countP isSum, Settles (reduceOnce? isSum none) n products sums) ∧
      fold lookup t =
        if (operands lookup t).any isUnresolved then .text (String.ofList (operands lookup t)) else settled sums := by
  exact ⟨_, _, _, settles_mergeSigns _, settles_reduce isOperator_of_isProduct _, settles_reduce isOperator_of_isSum _,
    rfl⟩

end Flowchart.Arithmetic
