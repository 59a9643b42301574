import Flowchart.Expression.Evaluation
import Flowchart.Proofs.Condition.Scanning

/-!
# Quotations

A quotation mark opens a quotation if none is open, and else closes it.  This file is about the quotations in a text,
and about texts that are one quotation and nothing else: these are the literals of strings.

* `Text.inQuotes` — a text in quotation marks.
* `Text.quotations` — what stands in the quotations of a text, one after the other.
* `Text.Paired` — the quotation marks of a text come in pairs; `Text.Paired.induct` goes through such a text quotation
  by quotation.
* **`evaluate_inQuotes`** — a quotation is evaluated to the string in it.
* **`evaluate_open`** — a text whose only quotation mark is the first character has no value.
-/

namespace Flowchart

namespace Text

/-! ### Texts in quotation marks -/

/-- A text in quotation marks. -/
def inQuotes (t : Text) : Text := '"' :: (t ++ ['"'])

variable {p q r t : Text}

@[simp] theorem getLast?_inQuotes (t : Text) : (inQuotes t).getLast? = some '"' := by
  rw [inQuotes, ← List.cons_append, List.getLast?_concat]

/-- A text in quotation marks has no margins. -/
theorem trim_inQuotes (t : Text) : trim (inQuotes t) = inQuotes t := by
  refine trim_eq_of_edges ?_ ?_
  · rintro _ ⟨⟩
    rfl
  · rw [getLast?_inQuotes]
    rintro _ ⟨⟩
    rfl

theorem quoted?_inQuotes (t : Text) : Literal.quoted? (inQuotes t) = some t := by
  simp [Literal.quoted?, inQuotes]

/-- A character that is no blank stays when a margin is taken off. -/
theorem mem_trimStart {c : Char} (h : c ∈ t) (hc : isBlank c = false) : c ∈ trimStart t := by
  have hsplit : t.takeWhile isBlank ++ trimStart t = t := List.takeWhile_append_dropWhile
  rw [← hsplit] at h
  refine (List.mem_append.mp h).resolve_left fun hmargin => ?_
  exact absurd (List.mem_takeWhile_imp hmargin) (by rw [hc]; decide)

/-- What is left of a text that begins with a quotation mark when it is trimmed. -/
theorem trim_cons_quote (t : Text) : ∃ u, trim ('"' :: t) = '"' :: u ∧ u <+: t := by
  have hstart : trimStart ('"' :: t) = '"' :: t := rfl
  obtain ⟨blanks, hblanks, hall⟩ := exists_blanks_trimEnd ('"' :: t)
  rw [trim, hstart]
  cases hend : trimEnd ('"' :: t) with
  | nil =>
    rw [hend, List.nil_append] at hblanks
    have hblank := hall '"' (by rw [← hblanks]; exact List.mem_cons_self)
    exact absurd hblank (by decide)
  | cons c u =>
    rw [hend, List.cons_append] at hblanks
    obtain ⟨rfl, hrest⟩ := List.cons.inj hblanks
    exact ⟨u, rfl, blanks, hrest.symm⟩

/-! ### The quotations in a text -/

/-- What stands in the quotations of a text, after what has been read of a quotation that is open. -/
def quotationsFrom : Option Text → Text → List Text
  | _, [] => []
  | none, c :: t => if c = '"' then quotationsFrom (some []) t else quotationsFrom none t
  | some q, c :: t => if c = '"' then q :: quotationsFrom none t else quotationsFrom (some (q ++ [c])) t

/-- What stands in the quotations of a text, one after the other.  A quotation that is not closed does not count. -/
def quotations (t : Text) : List Text := quotationsFrom none t

theorem quotationsFrom_none_append (hp : '"' ∉ p) (t : Text) :
    quotationsFrom none (p ++ t) = quotationsFrom none t := by
  induction p with
  | nil => rfl
  | cons c p ih =>
    rw [List.mem_cons, not_or] at hp
    rw [List.cons_append, quotationsFrom, if_neg (Ne.symm hp.1), ih hp.2]

theorem quotationsFrom_some_append (hq : '"' ∉ q) (r : Text) :
    quotationsFrom (some p) (q ++ '"' :: r) = (p ++ q) :: quotations r := by
  induction q generalizing p with
  | nil => rw [List.nil_append, List.append_nil, quotationsFrom, if_pos rfl, quotations]
  | cons c q ih =>
    rw [List.mem_cons, not_or] at hq
    rw [List.cons_append, quotationsFrom, if_neg (Ne.symm hq.1), ih hq.2, List.append_assoc, List.singleton_append]

/-- A text without quotation marks has no quotations. -/
theorem quotations_plain (hp : '"' ∉ p) : quotations p = [] := by
  have hnone := quotationsFrom_none_append hp []
  rwa [List.append_nil] at hnone

/-- The first quotation of a text, and what follows it. -/
theorem quotations_quote (hp : '"' ∉ p) (hq : '"' ∉ q) (r : Text) :
    quotations (p ++ '"' :: (q ++ '"' :: r)) = q :: quotations r := by
  unfold quotations
  rw [quotationsFrom_none_append hp, quotationsFrom, if_pos rfl, quotationsFrom_some_append hq, List.nil_append]
  rfl

/-- The quotation marks of a text come in pairs. -/
def Paired (t : Text) : Prop := Even (t.count '"')

instance : Decidable (Paired t) := inferInstanceAs (Decidable (Even _))

theorem paired_append_plain (hp : '"' ∉ p) : Paired (t ++ p) ↔ Paired t := by
  rw [Paired, List.count_append, List.count_eq_zero.mpr hp, Nat.add_zero, Paired]

theorem paired_plain_append (hp : '"' ∉ p) : Paired (p ++ t) ↔ Paired t := by
  rw [Paired, List.count_append, List.count_eq_zero.mpr hp, Nat.zero_add, Paired]

theorem paired_quote (hp : '"' ∉ p) (hq : '"' ∉ q) : Paired (p ++ '"' :: (q ++ '"' :: r)) ↔ Paired r := by
  unfold Paired
  rw [List.count_append, List.count_cons_self, List.count_append, List.count_cons_self, List.count_eq_zero.mpr hp,
    List.count_eq_zero.mpr hq, Nat.zero_add, Nat.zero_add]
  exact ⟨fun h => by grind, fun h => by grind⟩

/-- **A text with paired quotation marks** has none, or is a text without them, a quotation and such a text again. -/
theorem Paired.induct {motive : Text → Prop} (plain : ∀ p, '"' ∉ p → motive p)
    (quote : ∀ p q r, '"' ∉ p → '"' ∉ q → Paired r → motive r → motive (p ++ '"' :: (q ++ '"' :: r)))
    (h : Paired t) : motive t := by
  induction hn : t.length using Nat.strongRecOn generalizing t with
  | ind n ih =>
    by_cases hopen : '"' ∈ t
    · obtain ⟨p, u, rfl, hp⟩ := List.eq_append_cons_of_mem hopen
      by_cases hclose : '"' ∈ u
      · obtain ⟨q, r, rfl, hq⟩ := List.eq_append_cons_of_mem hclose
        have hr : Paired r := (paired_quote hp hq).mp h
        refine quote p q r hp hq hr (ih r.length ?_ hr rfl)
        rw [← hn]
        simp only [List.length_append, List.length_cons]
        omega
      · have hone : (p ++ '"' :: u).count '"' = 1 := by
          rw [List.count_append, List.count_cons_self, List.count_eq_zero.mpr hp, List.count_eq_zero.mpr hclose]
        rw [Paired, hone] at h
        exact absurd h (by decide)
    · exact plain t hopen

/-- Behind paired quotation marks, a text without any adds no quotation. -/
theorem quotations_append_plain (ht : Paired t) (hp : '"' ∉ p) : quotations (t ++ p) = quotations t := by
  refine Paired.induct (motive := fun t => quotations (t ++ p) = quotations t) ?_ ?_ ht
  · intro u hu
    rw [quotations_plain hu, quotations_plain (by simp [hu, hp])]
  · intro u q r hu hq _ ih
    rw [quotations_quote hu hq, List.append_assoc, List.cons_append, List.append_assoc, List.cons_append,
      quotations_quote hu hq, ih]

end Text

/-! ### Literals of strings -/

section

variable {σ : Type} (env : Environment σ) (s : σ)

/-- A text that begins with a quotation mark is no numeral. -/
theorem Literal.numeral?_quote (t : Text) : numeral? ('"' :: t) = none := by
  have hdigit : Text.isDigit '"' = false := by decide
  simp [numeral?, isWholeNumeral, isDecimalNumeral, withoutMinus, isDigits, hdigit]

/-- **A quotation is evaluated to the string in it**, and changes nothing. -/
theorem evaluate_inQuotes (t : Text) : evaluate env (Text.inQuotes t) s = .done (.text (String.ofList t)) s := by
  have hliteral : Expression.literal? (Text.inQuotes t) = some (.text (String.ofList t)) := by
    rw [Expression.literal?, show Literal.numeral? (Text.inQuotes t) = none from Literal.numeral?_quote _,
      Text.quoted?_inQuotes]
    rfl
  unfold evaluate
  rw [Expression.read_eq, Text.trim_inQuotes, hliteral]
  rfl

/-- No name of a function begins with a quotation mark. -/
theorem Literal.call?_quote (t : Text) : call? ('"' :: t) = none := by
  have htake : ('"' :: t).takeWhile (· != '(') = '"' :: t.takeWhile (· != '(') := rfl
  obtain ⟨u, hend, -⟩ : ∃ u, Text.trimEnd ('"' :: t.takeWhile (· != '(')) = '"' :: u ∧ _ := Text.trim_cons_quote _
  have hname : Text.isName (Text.trimEnd (('"' :: t).takeWhile (· != '('))) = false := by
    rw [htake, hend]
    rfl
  exact if_neg (by rw [hname]; exact Bool.false_ne_true)

/-- A quotation that is not closed is no literal. -/
theorem Expression.literal?_open {t : Text} (h : '"' ∉ t) : literal? ('"' :: t) = none := by
  have hquoted : Literal.quoted? ('"' :: t) = none := if_neg fun hlast => h (List.mem_of_getLast? hlast)
  rw [literal?, Literal.numeral?_quote, hquoted]
  rfl

/-- No operator counts in a quotation, up to the end of the text if it is not closed. -/
theorem Arithmetic.operatorIn_quoted {t : Text} (h : '"' ∉ t) : operatorIn true t = false := by
  induction t with
  | nil => rfl
  | cons c t ih =>
    rw [List.mem_cons, not_or] at h
    simp [operatorIn, Ne.symm h.1, ih h.2]

/-- A quotation that is not closed is neither a literal nor a call nor an operation, and so it is taken for a name. -/
theorem Expression.read_open {t : Text} (h : '"' ∉ t) : ∃ source, read ('"' :: t) = .unreadable source := by
  obtain ⟨u, htrim, hinitial⟩ := Text.trim_cons_quote t
  have hu : '"' ∉ u := fun hmem => h (hinitial.subset hmem)
  have hoperator : Arithmetic.hasOperator ('"' :: u) = false := Arithmetic.operatorIn_quoted hu
  refine ⟨'"' :: u, ?_⟩
  rw [read_eq, htrim, literal?_open hu, Literal.call?_quote]
  show readOperand ('"' :: u) = _
  rw [readOperand, hoperator]
  rfl

/-- **A text that opens a quotation and does not close it has no value.** -/
theorem evaluate_open {t : Text} (h : '"' ∉ t) :
    ∃ name, evaluate env ('"' :: t) s = .failed (.undefinedVariable name) s := by
  obtain ⟨source, hread⟩ := Expression.read_open h
  refine ⟨String.ofList source, ?_⟩
  unfold evaluate
  rw [hread]
  rfl

end

end Flowchart
