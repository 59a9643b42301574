import Flowchart.Proofs.Text.Bytes
import Flowchart.Proofs.Text.Pieces

/-!
# Matching parentheses

A reader that looks for the parenthesis that closes another one counts how many are open, and notes whether it is in a
quotation.  What stands between the two has a grammar of its own: it is made of quotations, of parentheses around such
texts, and of characters that are neither.

* `Text.Balanced` — the grammar; **`balanced_iff_through?`** says that a text is of this sort just if the reader comes
  out of it at the nesting at which it went in.
* **`closing_eq_some_iff`** — the two sides of a closing parenthesis: what stands in front of it is balanced.
* `enclosed?_eq_some_iff` — texts that are enclosed in parentheses.
* `Text.Closes` — a parenthesis closes another one, the places of both given in bytes.
* **`closingOffset?_closes`** — the place of the closing parenthesis is found if there is one.
-/

namespace Flowchart

/-- At the top level nothing is left to tell. -/
theorem Nesting.eq_of_isTop {n : Nesting} (h : n.isTop = true) : n = {} := by
  obtain ⟨depth, quoted⟩ := n
  simp only [isTop, Bool.and_eq_true, beq_iff_eq, Bool.not_eq_true'] at h
  obtain ⟨rfl, rfl⟩ := h
  rfl

namespace Text

variable {c : Char} {t u r before after : Text} {opening i : Nat}

/-! ### The grammar -/

/-- Texts in which quotation marks come in pairs, and parentheses outside of quotations open and close in pairs. -/
inductive Balanced : Text → Prop where
  | nil : Balanced []
  | plain {c : Char} {t : Text} (hc : Nesting.isDelimiter c = false) (ht : Balanced t) : Balanced (c :: t)
  | quotation {q t : Text} (hq : '"' ∉ q) (ht : Balanced t) : Balanced ('"' :: (q ++ '"' :: t))
  | group {u t : Text} (hu : Balanced u) (ht : Balanced t) : Balanced ('(' :: (u ++ ')' :: t))

/-- **A balanced text is passed.** -/
theorem Balanced.through?_eq (h : Balanced t) : Nesting.through? {} t = some {} := by
  induction h with
  | nil => rfl
  | plain hc _ ih => rwa [Nesting.through?_of_not_delimiter hc]
  | quotation hq _ ih =>
    show Nesting.through? { quoted := true } _ = some {}
    rwa [Nesting.through?_quoted hq]
  | @group u t _ _ ihu ih =>
    show Nesting.through? (Nesting.deeper {}) (u ++ ')' :: t) = some {}
    rw [Nesting.through?_append, Nesting.through?_deeper ihu]
    exact ih

/-- A quotation that is left has its end in the text. -/
theorem exists_quotation {n : Nesting} (h : Nesting.through? { quoted := true } t = some n) (hout : n.quoted = false) :
    ∃ q rest, t = q ++ '"' :: rest ∧ '"' ∉ q := by
  by_cases hmem : '"' ∈ t
  · exact List.eq_append_cons_of_mem hmem
  · -- Without a quotation mark the text would still be quoted at its end.
    have hstays : ∀ {u : Text}, '"' ∉ u → Nesting.through? { quoted := true } u = some { quoted := true } := by
      intro u hu
      induction u with
      | nil => rfl
      | cons c u ih =>
        rw [List.mem_cons, not_or] at hu
        rw [Nesting.through?, if_neg (by simp), Nesting.next, if_neg (Ne.symm hu.1), if_pos rfl, ih hu.2]
    rw [hstays hmem] at h
    cases h
    cases hout

/-- **Only balanced texts are passed**, from the top level to the top level. -/
theorem balanced_of_through? (h : Nesting.through? {} t = some {}) : Balanced t := by
  -- The text behind a quotation, the text in parentheses and the text behind them are all shorter.
  induction hlength : t.length using Nat.strong_induction_on generalizing t with
  | _ length ih =>
    cases t with
    | nil => exact .nil
    | cons c t =>
      have hnext := Nesting.through?_of_cons h
      by_cases hc : Nesting.isDelimiter c = false
      · rw [Nesting.next_of_not_delimiter hc] at hnext
        exact .plain hc (ih t.length (by simp at hlength; omega) hnext rfl)
      simp only [Nesting.isDelimiter, Bool.or_eq_false_iff, beq_eq_false_iff_ne, not_and_or, not_not] at hc
      rcases hc with (rfl | rfl) | rfl
      · obtain ⟨q, rest, rfl, hq⟩ := exists_quotation hnext rfl
        rw [show Nesting.next {} '"' = { quoted := true } from rfl, Nesting.through?_quoted hq] at hnext
        exact .quotation hq (ih rest.length (by simp at hlength; omega) hnext rfl)
      · obtain ⟨inner, rest, n, rfl, hinner, htop⟩ := exists_close (n := {}) hnext rfl
        obtain rfl := Nesting.eq_of_isTop htop
        rw [show Nesting.next {} '(' = Nesting.deeper {} from rfl, Nesting.through?_append,
          Nesting.through?_deeper hinner] at hnext
        exact .group (ih inner.length (by simp at hlength; omega) hinner rfl)
          (ih rest.length (by simp at hlength; omega) hnext rfl)
      · cases h

/-- **The grammar and the reader agree.** -/
theorem balanced_iff_through? : Balanced t ↔ Nesting.through? {} t = some {} :=
  ⟨Balanced.through?_eq, balanced_of_through?⟩

instance (t : Text) : Decidable (Balanced t) := decidable_of_iff _ balanced_iff_through?.symm

/-! ### The closing parenthesis -/

/-- In front of the closing parenthesis the reader is where it began. -/
theorem exists_through?_of_closing {n : Nesting} (h : closing n.deeper.depth n.quoted t = some (u, r)) :
    ∃ n', n.through? u = some n' ∧ n'.isTop = true := by
  induction t generalizing n u with
  | nil => cases h
  | cons c t ih =>
    cases hc : c = ')' && !n.quoted && n.depth == 0 with
    | true =>
      simp only [Bool.and_eq_true, decide_eq_true_eq, Bool.not_eq_true', beq_iff_eq] at hc
      obtain ⟨⟨rfl, hquoted⟩, hdepth⟩ := hc
      have hhere : closing n.deeper.depth n.quoted (')' :: t) = some ([], t) := by
        simp [closing, Nesting.deeper, hquoted, hdepth]
      rw [hhere] at h
      cases h
      exact ⟨n, rfl, by simp [Nesting.isTop, hquoted, hdepth]⟩
    | false =>
      rw [closing_cons hc] at h
      obtain ⟨⟨v, rest⟩, hclosing, heq⟩ := Option.map_eq_some_iff.mp h
      cases heq
      obtain ⟨n', hthrough, htop⟩ := ih hclosing
      refine ⟨n', ?_, htop⟩
      rw [Nesting.through?, if_neg (by rw [hc]; exact Bool.false_ne_true)]
      exact hthrough

/-- **The two sides of the closing parenthesis.**  It is the one with a balanced text in front of it. -/
theorem closing_eq_some_iff : closing 1 false t = some (u, r) ↔ Balanced u ∧ t = u ++ ')' :: r := by
  constructor
  · intro h
    obtain ⟨n, hthrough, htop⟩ := exists_through?_of_closing (n := {}) h
    obtain rfl := Nesting.eq_of_isTop htop
    exact ⟨balanced_of_through? hthrough, eq_append_of_closing h⟩
  · rintro ⟨hu, rfl⟩
    have hpass := closing_through hu.through?_eq (')' :: r)
    have hhere : closing 1 false (')' :: r) = some ([], r) := rfl
    rw [show (Nesting.deeper {}).depth = 1 from rfl, hhere] at hpass
    rw [hpass, Option.map_some, List.append_nil]

/-- The opening parenthesis is passed first. -/
theorem closing_open (t : Text) :
    closing 0 false ('(' :: t) = (closing 1 false t).map fun p => ('(' :: p.1, p.2) := by
  rw [closing, if_neg (by decide), if_pos (by decide)]

/-- **What is enclosed in parentheses** is balanced. -/
theorem enclosed?_eq_some_iff : enclosed? t = some u ↔ Balanced u ∧ t = '(' :: (u ++ [')']) := by
  constructor
  · intro h
    unfold enclosed? at h
    split at h
    · next rest =>
      split at h
      · next before hclosing =>
        cases h
        rw [closing_open] at hclosing
        obtain ⟨⟨v, after⟩, hfound, heq⟩ := Option.map_eq_some_iff.mp hclosing
        cases heq
        obtain ⟨hbalanced, rfl⟩ := closing_eq_some_iff.mp hfound
        exact ⟨hbalanced, rfl⟩
      · cases h
    · cases h
  · rintro ⟨hu, rfl⟩
    exact enclosed?_of_through hu.through?_eq

/-! ### Places of parentheses -/

/-- Behind the opening parenthesis at a place, the closing one is found. -/
theorem closingOffset?_append (before after : Text) :
    closingOffset? (before ++ '(' :: after) (byteSize before) =
      (closing 1 false after).map fun p => byteSize before + 1 + byteSize p.1 := by
  have hplace := fromOffset_append 0 before ('(' :: after)
  rw [Nat.zero_add] at hplace
  unfold closingOffset?
  rw [hplace]
  dsimp only
  rw [closing_open, Option.map_map]
  refine congrFun (congrArg Option.map (funext fun p => ?_)) _
  show byteSize before + (1 + byteSize p.1) = _
  rw [Nat.add_assoc]

/-- Behind the place `opening` a parenthesis stands at the place `i`, and what is strictly between the two places is
balanced.  Places are counted in bytes. -/
def Closes (t : Text) (opening i : Nat) : Prop :=
  opening < i ∧ (bytes t)[i]? = some ')'.toUInt8 ∧ ∃ u, Balanced u ∧ ((bytes t).take i).drop (opening + 1) = bytes u

/-- The bytes between two parentheses are those of the text between them. -/
theorem between_bytes (before inner after : Text) :
    ((bytes (before ++ '(' :: (inner ++ ')' :: after))).take (byteSize before + 1 + byteSize inner)).drop
      (byteSize before + 1) = bytes inner := by
  have hopen : byteSize (before ++ ['(']) = byteSize before + 1 := byteSize_append before ['(']
  have hfront : byteSize (before ++ ['('] ++ inner) = byteSize before + 1 + byteSize inner := by
    rw [byteSize_append, hopen]
  have htext : before ++ '(' :: (inner ++ ')' :: after) = (before ++ ['('] ++ inner) ++ ')' :: after := by simp
  rw [htext, ← hfront, take_bytes, ← hopen, drop_bytes]

/-- A parenthesis that closes another one has a balanced text between it and the other one. -/
theorem closes_append_iff : Closes (before ++ '(' :: after) (byteSize before) i ↔
    ∃ u r, Balanced u ∧ after = u ++ ')' :: r ∧ byteSize before + 1 + byteSize u = i := by
  constructor
  · rintro ⟨hlt, hbyte, u, hu, hbetween⟩
    obtain ⟨front, r, htext, rfl⟩ := (getElem?_bytes_eq_some_iff (by decide)).mp hbyte
    rcases List.append_eq_append_iff.mp htext with ⟨m, rfl, hafter⟩ | ⟨m, rfl, -⟩
    · cases m with
      | nil => cases hafter
      | cons c inner =>
        rw [List.cons_append] at hafter
        obtain ⟨rfl, rfl⟩ := List.cons.inj hafter
        have hsize : byteSize (before ++ '(' :: inner) = byteSize before + 1 + byteSize inner := by
          rw [byteSize_append, byteSize, ← Nat.add_assoc]
          rfl
        rw [hsize, between_bytes] at hbetween
        obtain rfl := bytes_injective hbetween
        exact ⟨inner, r, hu, rfl, hsize.symm⟩
    · rw [byteSize_append] at hlt
      omega
  · rintro ⟨u, r, hu, rfl, rfl⟩
    refine ⟨by omega, ?_, u, hu, between_bytes before u r⟩
    refine (getElem?_bytes_eq_some_iff (by decide)).mpr ⟨before ++ '(' :: u, r, by simp, ?_⟩
    rw [byteSize_append, byteSize, ← Nat.add_assoc]
    rfl

/-- **The place of the closing parenthesis** is found just if there is one. -/
theorem closingOffset?_eq_some_iff (hopening : (bytes t)[opening]? = some '('.toUInt8) :
    closingOffset? t opening = some i ↔ Closes t opening i := by
  obtain ⟨before, after, rfl, rfl⟩ := (getElem?_bytes_eq_some_iff (by decide)).mp hopening
  rw [closingOffset?_append, closes_append_iff, Option.map_eq_some_iff]
  constructor
  · rintro ⟨⟨u, r⟩, hclosing, rfl⟩
    obtain ⟨hu, rfl⟩ := closing_eq_some_iff.mp hclosing
    exact ⟨u, r, hu, rfl, rfl⟩
  · rintro ⟨u, r, hu, rfl, rfl⟩
    exact ⟨(u, r), closing_eq_some_iff.mpr ⟨hu, rfl⟩, rfl⟩

/-- **Matching parentheses.**  From an opening parenthesis at any place of any text, the search finds a place just if a
closing parenthesis stands there and what is between the two is balanced; it finds none just if there is no such place;
and there are never two.  So a text is enclosed in parentheses just if it is a balanced text with one parenthesis on
either side. -/
theorem closingOffset?_closes :
    (∀ t opening, (bytes t)[opening]? = some '('.toUInt8 →
      (∀ i, closingOffset? t opening = some i ↔ Closes t opening i) ∧
      (closingOffset? t opening = none ↔ ¬∃ i, Closes t opening i) ∧
      ∀ i j, Closes t opening i → Closes t opening j → i = j) ∧
    ∀ t, (enclosed? t).isSome = true ↔ ∃ u, Balanced u ∧ t = '(' :: (u ++ [')']) := by
  refine ⟨fun t opening hopening => ?_, fun t => ?_⟩
  · have hfound : ∀ i, closingOffset? t opening = some i ↔ Closes t opening i := fun i =>
      closingOffset?_eq_some_iff hopening
    refine ⟨hfound, ?_, fun i j hi hj => ?_⟩
    · rw [Option.eq_none_iff_forall_ne_some, not_exists]
      exact forall_congr' fun i => not_congr (hfound i)
    · rw [← hfound] at hi hj
      exact Option.some.inj (hi.symm.trans hj)
  · rw [Option.isSome_iff_exists]
    exact exists_congr fun u => enclosed?_eq_some_iff

/-- A call in a text, with a quoted parenthesis in it, behind a letter of two bytes and in front of a parenthesis that
closes nothing. -/
theorem closingOffset?_closes_quoted :
    (bytes "é(f(x), \")\")) ".toList)[2]? = some '('.toUInt8 ∧
    closingOffset? "é(f(x), \")\")) ".toList 2 = some 12 ∧
    Closes "é(f(x), \")\")) ".toList 2 12 ∧
    (enclosed? "(f(x), \")\")".toList).isSome = true := by
  have hopening : (bytes "é(f(x), \")\")) ".toList)[2]? = some '('.toUInt8 := by decide
  have hfound : closingOffset? "é(f(x), \")\")) ".toList 2 = some 12 := by decide
  exact ⟨hopening, hfound, ((closingOffset?_closes.1 _ 2 hopening).1 12).mp hfound,
    (closingOffset?_closes.2 _).mpr ⟨"f(x), \")\"".toList, by decide, by decide⟩⟩

end Text

end Flowchart
