import Flowchart.Proofs.Arithmetic.Operations

/-!
# Signs merged on a text

Where the names of negative numbers have been replaced, signs stand next to each other: behind an operator, before it
and at the start.  They are merged two by two, every kind of pair at once, until no two of them stand together.  Here
this is followed for texts in which runs of signs stand before whole numerals.

* `Merger.count_minus_apply` — a merger keeps the parity of the minuses.
* `Signed` — a numeral with the run of signs before it: signs at the start, signs that begin with an operator of a sum,
  or signs behind the sign of a product.  A merger leaves each of the three what it is.
* `Merger.apply_texts` — a merger works on each run by itself.
* `Signed.text_of_merged` — what is left of a run is at most the operator and one minus.
* **`dropPlus_mergeSigns`** — signed numerals become a row of figures.
* `asSum`, `total_asSum`, `allFit_asSum` — it makes no difference to a row of numbers whether a sign is taken for the
  operator of a sum or for that of the number behind it.
-/

namespace Flowchart.Arithmetic

/-! ### Mergers -/

namespace Merger

variable {m : Merger} {s t : Text} {c : Char}

theorem occurs_iff : m.occurs t = true ↔ [m.first, m.second] <:+: t := by
  fun_induction Merger.occurs m t with
  | case1 => simp
  | case2 c =>
    refine ⟨fun h => (by cases h), fun h => ?_⟩
    have hlength := h.length_le
    simp at hlength
  | case3 a b t ih =>
    have hpair : (decide (a = m.first) && decide (b = m.second)) = true ↔ [m.first, m.second] <+: a :: b :: t := by
      simp only [Bool.and_eq_true, decide_eq_true_eq, List.cons_prefix_cons, List.nil_prefix, and_true]
      exact and_congr eq_comm eq_comm
    rw [Bool.or_eq_true, ih, hpair, List.infix_cons_iff (a := a)]

/-- Digits are not merged. -/
theorem ne_of_isDigit (hm : m ∈ mergers) (hc : c.isDigit = true) : c ≠ m.first ∧ c ≠ m.second := by
  have hsigns : ∀ m ∈ mergers, m.first.isDigit = false ∧ m.second.isDigit = false := by decide
  obtain ⟨hfirst, hsecond⟩ := hsigns m hm
  refine ⟨?_, ?_⟩
  · intro heq
    rw [heq, hfirst] at hc
    cases hc
  · intro heq
    rw [heq, hsecond] at hc
    cases hc

/-- A merger works on the two sides of a character that is not merged. -/
theorem apply_append_cons (hfirst : c ≠ m.first) (hsecond : c ≠ m.second) (s t : Text) :
    m.apply (s ++ c :: t) = m.apply s ++ c :: m.apply t := by
  have hcons : m.apply (c :: t) = c :: m.apply t := by
    cases t with
    | nil => rfl
    | cons d t => simp [Merger.apply, hfirst]
  fun_induction Merger.apply m s with
  | case1 => exact hcons
  | case2 a =>
    show m.apply (a :: c :: t) = a :: c :: m.apply t
    rw [Merger.apply, if_neg (by simp [hsecond]), hcons]
  | case3 a b s h ih =>
    show m.apply (a :: b :: (s ++ c :: t)) = m.result :: (m.apply s ++ c :: m.apply t)
    rw [Merger.apply, if_pos h, ih]
  | case4 a b s h ih =>
    show m.apply (a :: b :: (s ++ c :: t)) = a :: (m.apply (b :: s) ++ c :: m.apply t)
    rw [Merger.apply, if_neg h, ← ih]
    rfl

theorem apply_digits (hm : m ∈ mergers) (hs : ∀ c ∈ s, c.isDigit = true) : m.apply (s ++ t) = s ++ m.apply t := by
  induction s with
  | nil => rfl
  | cons c s ih =>
    obtain ⟨hfirst, hsecond⟩ := ne_of_isDigit hm (hs c List.mem_cons_self)
    have hrest := ih fun d hd => hs d (List.mem_cons_of_mem c hd)
    have hcons := apply_append_cons hfirst hsecond [] (s ++ t)
    rw [hrest] at hcons
    exact hcons

theorem apply_ne_nil (h : t ≠ []) : m.apply t ≠ [] := by
  fun_cases Merger.apply m t with
  | case1 => exact h
  | case2 | case3 | case4 => exact List.cons_ne_nil _ _

/-- **The parity of the minuses** is kept by every merger. -/
theorem count_minus_apply (hm : m ∈ mergers) (t : Text) : (m.apply t).count '-' % 2 = t.count '-' % 2 := by
  have hpair : ∀ m ∈ mergers, [m.result].count '-' % 2 = [m.first, m.second].count '-' % 2 := by decide
  have hm' := hpair m hm
  fun_induction Merger.apply m t with
  | case1 | case2 => rfl
  | case3 a b t h ih =>
    simp only [Bool.and_eq_true, decide_eq_true_eq] at h
    obtain ⟨rfl, rfl⟩ := h
    simp only [List.count_cons, List.count_nil] at hm' ⊢
    omega
  | case4 a b t h ih =>
    simp only [List.count_cons (l := m.apply (b :: t)), List.count_cons (l := b :: t)]
    omega

/-- Signs are merged to signs. -/
theorem isSum_apply (hm : m ∈ mergers) (h : ∀ c ∈ t, isSum c = true) : ∀ c ∈ m.apply t, isSum c = true := by
  have hpair : ∀ m ∈ mergers, isSum m.first = true → isSum m.second = true → isSum m.result = true := by decide
  fun_induction Merger.apply m t with
  | case1 | case2 => exact h
  | case3 a b t hab ih =>
    simp only [Bool.and_eq_true, decide_eq_true_eq] at hab
    obtain ⟨rfl, rfl⟩ := hab
    have hresult := hpair m hm (h _ List.mem_cons_self) (h _ (List.mem_cons_of_mem _ List.mem_cons_self))
    have hrest := ih fun c hc => h c (List.mem_cons_of_mem _ (List.mem_cons_of_mem _ hc))
    exact List.forall_mem_cons.mpr ⟨hresult, hrest⟩
  | case4 a b t hab ih =>
    have hrest := ih fun c hc => h c (List.mem_cons_of_mem a hc)
    exact List.forall_mem_cons.mpr ⟨h a List.mem_cons_self, hrest⟩

/-- The sign of a product takes up pluses, and nothing else. -/
theorem apply_times (hm : m ∈ mergers) (h : ∀ c ∈ t, isSum c = true) :
    ∃ signs, m.apply ('*' :: t) = '*' :: signs ∧ ∀ c ∈ signs, isSum c = true := by
  have htimes : ∀ m ∈ mergers, '*' = m.first → m.result = '*' := by decide
  cases t with
  | nil => exact ⟨[], rfl, h⟩
  | cons c t =>
    by_cases hc : '*' = m.first ∧ c = m.second
    · refine ⟨m.apply t, ?_, isSum_apply hm fun d hd => h d (List.mem_cons_of_mem c hd)⟩
      rw [Merger.apply, if_pos (by simpa using hc), htimes m hm hc.1]
    · refine ⟨m.apply (c :: t), ?_, isSum_apply hm h⟩
      rw [Merger.apply, if_neg (by simpa using hc)]

end Merger

/-! ### Signed numerals -/

/-- Where a run of signs stands: at the start, or between two operands. -/
inductive Position where
  | start
  | sum
  | product
  deriving DecidableEq

/-- The runs that can stand at a position. -/
def Position.Admits : Position → Text → Prop
  | start, run => ∀ c ∈ run, isSum c = true
  | sum, run => run ≠ [] ∧ ∀ c ∈ run, isSum c = true
  | product, run => ∃ signs, run = '*' :: signs ∧ ∀ c ∈ signs, isSum c = true

/-- Mergers leave a run at its position. -/
theorem Position.Admits.apply {m : Merger} (hm : m ∈ mergers) {p : Position} {run : Text} (h : p.Admits run) :
    p.Admits (m.apply run) := by
  cases p with
  | start => exact Merger.isSum_apply hm h
  | sum => exact ⟨Merger.apply_ne_nil h.1, Merger.isSum_apply hm h.2⟩
  | product =>
    obtain ⟨signs, rfl, hsigns⟩ := h
    exact Merger.apply_times hm hsigns

/-- A whole numeral with a run of signs before it, the operator included. -/
structure Signed where
  position : Position
  run : Text
  admitted : position.Admits run
  numeral : Numeral

namespace Signed

/-- A signed numeral as it is written. -/
def text (e : Signed) : Text := e.run ++ e.numeral.digits

/-- The minuses of the run make one minus. -/
def negative (e : Signed) : Bool := e.run.count '-' % 2 == 1

/-- The numeral with the sign that all signs of its run come to. -/
def figure (e : Signed) : Figure := ⟨e.negative, e.numeral⟩

/-- A signed numeral as a member of a row.  In a sum, the sign is the operator. -/
def step (e : Signed) : Operator × Figure :=
  match e.position with
  | .product => (.times, e.figure)
  | _ => (if e.negative then .minus else .plus, ⟨false, e.numeral⟩)

/-- A signed numeral with a merger applied. -/
def merge (m : Merger) (hm : m ∈ mergers) (e : Signed) : Signed :=
  { e with run := m.apply e.run, admitted := e.admitted.apply hm }

variable {m : Merger} (hm : m ∈ mergers) (e : Signed)

theorem negative_merge : (e.merge m hm).negative = e.negative := by
  unfold negative merge
  dsimp only
  rw [Merger.count_minus_apply hm]

theorem figure_merge : (e.merge m hm).figure = e.figure := by
  unfold figure
  rw [e.negative_merge hm]
  rfl

theorem step_merge : (e.merge m hm).step = e.step := by
  unfold step
  rw [e.figure_merge hm, e.negative_merge hm]
  rfl

/-- No two signs of the run are merged. -/
def Merged (e : Signed) : Prop := ∀ m ∈ mergers, m.occurs e.run = false

variable {e}

/-- Of merged signs there is one at most. -/
theorem signs_of_merged {run : Text} (h : ∀ m ∈ mergers, m.occurs run = false) {signs : Text} (hsuffix : signs <:+ run)
    (hsigns : ∀ c ∈ signs, isSum c = true) : signs = [] ∨ signs = ['+'] ∨ signs = ['-'] := by
  have hchar : ∀ c, isSum c = true → c = '+' ∨ c = '-' := by simp [isSum]
  cases signs with
  | nil => exact .inl rfl
  | cons c signs =>
    have hc := hchar c (hsigns c List.mem_cons_self)
    cases signs with
    | nil =>
      rcases hc with rfl | rfl
      · exact .inr (.inl rfl)
      · exact .inr (.inr rfl)
    | cons d signs =>
      have hd := hchar d (hsigns d (List.mem_cons_of_mem c List.mem_cons_self))
      obtain ⟨m, hm, hfirst, hsecond⟩ : ∃ m ∈ mergers, m.first = c ∧ m.second = d := by
        rcases hc with rfl | rfl <;> rcases hd with rfl | rfl <;> decide
      have hpair : [m.first, m.second] <:+: run := by
        rw [hfirst, hsecond]
        exact (List.prefix_append [c, d] signs).isInfix.trans hsuffix.isInfix
      have hoccurs := Merger.occurs_iff.mpr hpair
      rw [h m hm] at hoccurs
      cases hoccurs

/-- At the start, merged signs are at most one plus, or the sign of the figure. -/
theorem text_of_start (h : e.Merged) (hp : e.position = .start) :
    e.text = e.figure.text ∨ e.text = '+' :: e.figure.text := by
  obtain ⟨p, run, hrun, n⟩ := e
  subst hp
  rcases signs_of_merged h List.suffix_rfl hrun with rfl | rfl | rfl
  · exact .inl rfl
  · exact .inr rfl
  · exact .inl rfl

/-- **Between operands, merged signs** are the operator, and in a product perhaps one minus. -/
theorem text_of_merged (h : e.Merged) (hp : e.position ≠ .start) : e.text = e.step.1.char :: e.step.2.text := by
  obtain ⟨p, run, hrun, n⟩ := e
  cases p with
  | start => exact absurd rfl hp
  | sum =>
    rcases signs_of_merged h List.suffix_rfl hrun.2 with rfl | rfl | rfl
    · exact absurd rfl hrun.1
    · rfl
    · rfl
  | product =>
    obtain ⟨signs, rfl, hsigns⟩ := hrun
    rcases signs_of_merged h (List.suffix_cons '*' signs) hsigns with rfl | rfl | rfl
    · rfl
    · have htimes : (⟨'*', '+', '*'⟩ : Merger) ∈ mergers := by decide
      cases h _ htimes
    · rfl

end Signed

/-! ### Rows of signed numerals -/

/-- Signed numerals as they are written. -/
def texts (es : List Signed) : Text := es.flatMap Signed.text

/-- **A merger works on each run by itself.** -/
theorem Merger.apply_texts {m : Merger} (hm : m ∈ mergers) (es : List Signed) :
    m.apply (texts es) = texts (es.map (Signed.merge m hm)) := by
  induction es with
  | nil => rfl
  | cons e es ih =>
    obtain ⟨d, ds, hdigits⟩ := List.exists_cons_of_ne_nil e.numeral.ne_nil
    have hdigit : ∀ c ∈ d :: ds, c.isDigit = true := hdigits ▸ e.numeral.isDigit
    obtain ⟨hfirst, hsecond⟩ := Merger.ne_of_isDigit hm (hdigit d List.mem_cons_self)
    have hrest : m.apply (ds ++ texts es) = ds ++ m.apply (texts es) :=
      Merger.apply_digits hm fun c hc => hdigit c (List.mem_cons_of_mem d hc)
    calc m.apply (texts (e :: es))
        = m.apply (e.run ++ d :: (ds ++ texts es)) := by simp [texts, Signed.text, hdigits]
      _ = m.apply e.run ++ d :: (ds ++ texts (es.map (Signed.merge m hm))) := by
          rw [Merger.apply_append_cons hfirst hsecond, hrest, ih]
      _ = texts ((e :: es).map (Signed.merge m hm)) := by simp [texts, Signed.text, Signed.merge, hdigits]

/-- If no two signs of a text are merged, those of its runs are not. -/
theorem merged_of_texts {es : List Signed} (h : ∀ m ∈ mergers, m.occurs (texts es) = false) :
    ∀ e ∈ es, e.Merged := by
  intro e he m hm
  have hrun : e.run <:+: texts es :=
    (List.prefix_append e.run e.numeral.digits).isInfix.trans (List.infix_of_mem_flatten (List.mem_map_of_mem he))
  by_contra hoccurs
  have hpair := Merger.occurs_iff.mp (eq_true_of_ne_false hoccurs)
  have htexts := Merger.occurs_iff.mpr (hpair.trans hrun)
  rw [h m hm] at htexts
  cases htexts

/-- Numerals with merged signs are a row of figures, but for a plus at the start. -/
theorem dropPlus_texts {e : Signed} {es : List Signed} (he : e.position = .start)
    (hes : ∀ e ∈ es, e.position ≠ .start) (h : ∀ d ∈ e :: es, d.Merged) :
    dropPlus (texts (e :: es)) = rowText e.figure (es.map Signed.step) := by
  have hrest : ∀ (f : Figure) (es : List Signed), (∀ d ∈ es, d.position ≠ .start) → (∀ d ∈ es, d.Merged) →
      f.text ++ texts es = rowText f (es.map Signed.step) := by
    intro f es
    induction es generalizing f with
    | nil => exact fun _ _ => List.append_nil _
    | cons d es ih =>
      intro hpositions hmerged
      have hd := Signed.text_of_merged (hmerged d List.mem_cons_self) (hpositions d List.mem_cons_self)
      have hes := ih d.step.2 (fun b hb => hpositions b (List.mem_cons_of_mem d hb))
        fun b hb => hmerged b (List.mem_cons_of_mem d hb)
      show f.text ++ (d.text ++ texts es) = f.text ++ d.step.1.char :: rowText d.step.2 (es.map Signed.step)
      rw [hd, ← hes]
      rfl
  have hes' := hrest e.figure es hes fun d hd => h d (List.mem_cons_of_mem e hd)
  show dropPlus (e.text ++ texts es) = _
  rcases Signed.text_of_start (h e List.mem_cons_self) he with htext | htext
  · rw [htext, hes']
    obtain ⟨r, -, hrow⟩ := rowText_eq (es.map Signed.step)
    rw [hrow]
    unfold dropPlus
    split
    · next t heq => exact absurd heq (Figure.text_append_ne_plus _ _ _)
    · rfl
  · rw [htext, List.cons_append, hes']
    rfl

/-- **Signed numerals become a row of figures**: in sums the signs are merged into the operators, in products into the
numerals, and at the start a plus is dropped. -/
theorem dropPlus_mergeSigns {e : Signed} {es : List Signed} (he : e.position = .start)
    (hes : ∀ e ∈ es, e.position ≠ .start) :
    dropPlus (mergeSigns (texts (e :: es))) = rowText e.figure (es.map Signed.step) := by
  -- The induction is on the mergers; figures and steps are the same before and after each of them.
  generalize ht : texts (e :: es) = t
  fun_induction mergeSigns t generalizing e es with
  | case1 t m hfind ih =>
    have hm : m ∈ mergers := List.mem_of_find?_eq_some hfind
    have htexts : texts (e.merge m hm :: es.map (Signed.merge m hm)) = m.apply t := by
      rw [← ht, Merger.apply_texts hm]
      rfl
    have hpositions : ∀ d ∈ es.map (Signed.merge m hm), d.position ≠ .start := by
      intro d hd
      obtain ⟨b, hb, rfl⟩ := List.mem_map.mp hd
      exact hes b hb
    have hmerged := ih (show (e.merge m hm).position = .start from he) hpositions htexts
    rw [hmerged, e.figure_merge hm, List.map_map]
    exact congrArg _ (List.map_congr_left fun d _ => d.step_merge hm)
  | case2 t hfind =>
    subst ht
    have hnone : ∀ m ∈ mergers, m.occurs (texts (e :: es)) = false := by simpa using hfind
    exact dropPlus_texts he hes (merged_of_texts hnone)

/-! ### Signs of numbers and operators of sums -/

/-- A difference as the sum with the negative number. -/
def asSum : Operator × Int → Operator × Int
  | (.minus, b) => (.plus, -b)
  | p => p

section

variable (a : Int) (rest : List (Operator × Int))

/-- The sign of its first number is the sign of a product. -/
theorem multiply_neg : multiply (-a) rest = (-(multiply a rest).1, (multiply a rest).2) := by
  induction rest generalizing a with
  | nil => rfl
  | cons p rest ih =>
    obtain ⟨s, b⟩ := p
    cases s with
    | plus | minus => rfl
    | times =>
      show multiply (-a * b) rest = _
      rw [Int.neg_mul, ih]
      rfl

theorem multiply_asSum :
    multiply a (rest.map asSum) = ((multiply a rest).1, (multiply a rest).2.map asSum) := by
  induction rest generalizing a with
  | nil => rfl
  | cons p rest ih =>
    obtain ⟨s, b⟩ := p
    cases s with
    | plus =>
      show (a, (Operator.plus, (multiply b _).1) :: (multiply b _).2) = _
      rw [ih]
      rfl
    | minus =>
      show (a, (Operator.plus, (multiply (-b) _).1) :: (multiply (-b) _).2) = _
      rw [multiply_neg, ih]
      rfl
    | times =>
      show multiply (a * b) _ = _
      rw [ih]
      rfl

theorem sum_asSum : sum a (rest.map asSum) = sum a rest := by
  induction rest generalizing a with
  | nil => rfl
  | cons p rest ih =>
    obtain ⟨s, b⟩ := p
    cases s with
    | plus | times => exact ih _
    | minus =>
      show sum (a + -b) _ = sum (a - b) rest
      rw [ih, Int.sub_eq_add_neg]

/-- A row is worth the same. -/
theorem total_asSum : total a (rest.map asSum) = total a rest := by
  unfold total
  rw [multiply_asSum, sum_asSum]

theorem fits_neg : Fits (-a) ↔ Fits a := by
  unfold Fits
  rw [Int.natAbs_neg]

theorem productsFit_neg : ProductsFit (-a) rest ↔ ProductsFit a rest := by
  induction rest generalizing a with
  | nil => exact fits_neg a
  | cons p rest ih =>
    obtain ⟨s, b⟩ := p
    cases s with
    | plus | minus => exact and_congr (fits_neg a) Iff.rfl
    | times =>
      show Fits (-a) ∧ Fits b ∧ ProductsFit (-a * b) rest ↔ _
      rw [Int.neg_mul, ih, fits_neg]
      rfl

theorem productsFit_asSum : ProductsFit a (rest.map asSum) ↔ ProductsFit a rest := by
  induction rest generalizing a with
  | nil => rfl
  | cons p rest ih =>
    obtain ⟨s, b⟩ := p
    cases s with
    | plus => exact and_congr Iff.rfl (ih b)
    | minus => exact and_congr Iff.rfl ((productsFit_neg b _).trans (ih b))
    | times => exact and_congr Iff.rfl (and_congr Iff.rfl (ih (a * b)))

theorem sumsFit_asSum : SumsFit a (rest.map asSum) ↔ SumsFit a rest := by
  induction rest generalizing a with
  | nil => rfl
  | cons p rest ih =>
    obtain ⟨s, b⟩ := p
    cases s with
    | plus | times => exact and_congr Iff.rfl (ih _)
    | minus =>
      show Fits a ∧ SumsFit (a + -b) _ ↔ Fits a ∧ SumsFit (a - b) rest
      rw [ih, Int.sub_eq_add_neg]

/-- And what is computed for it fits in either case. -/
theorem allFit_asSum : AllFit a (rest.map asSum) ↔ AllFit a rest := by
  unfold AllFit
  rw [productsFit_asSum, multiply_asSum, sumsFit_asSum]

end

namespace Signed

variable {e : Signed}

/-- In a sum, a signed numeral adds its figure. -/
theorem asSum_step (h : e.position = .sum) : asSum (e.step.1, e.step.2.value) = (.plus, e.figure.value) := by
  unfold step figure
  rw [h]
  cases e.negative <;> rfl

theorem step_of_product (h : e.position = .product) : e.step = (.times, e.figure) := by
  unfold step
  rw [h]

end Signed

end Flowchart.Arithmetic
