import Flowchart.Proofs.Condition.Respelling

/-!
# Conditions as expressions of C

In the spelling of C, a condition over whole numbers is made of certain tokens, and C makes an expression of them by
its own precedence: a negation goes with the term behind it, and *and* binds more tightly than *or*.

* `Clause.tokens`, `Clauses.tokens` — the tokens of a condition; `Clauses.tokens?_text` says that these are read.
* `Clause.unary`, `Clause.behind`, `Chain.grouped`, `Clauses.expr` — a condition as C groups it.
* `C.reading` — how C reads on while operands and alternatives wait for what comes next; `C.reading_and` and
  `C.reading_or` go over one operator, `Clauses.reading_tokens` over a chain.
* `Clause.begins` — a clause is read as far as no comparison follows, for all clauses inside it.
* **`Clauses.read?_condition`** — what C makes of the translation of a condition.
-/

namespace Flowchart

/-! ### Tokens -/

/-- The tokens of a term. -/
def Term.tokens : Term → List C.Token
  | named x => [.word x.text]
  | numeral false n => [.word n.digits]
  | numeral true n => [.minus, .word n.digits]

def Compared.tokens (c : Compared) : List C.Token :=
  c.left.tokens ++ (.operator (.compared c.comparator) :: c.right.tokens)

mutual

/-- The tokens of a clause. -/
def Clause.tokens : Clause → List C.Token
  | .compared c => c.tokens
  | .group _ f _ => .opening :: (Clauses.tokens f ++ [.closing])
  | .negation _ _ c => .not :: c.tokens

/-- The tokens of a condition. -/
def Clauses.tokens : Chain Clause → List C.Token
  | .single c => c.tokens
  | .join c j rest => c.tokens ++ (.operator (.joined j.connective) :: Clauses.tokens rest)

end

namespace C

variable {c d : Char} {r : Text}

/-- No sign goes on with a character of a name, a parenthesis, a negation or white space. -/
theorem double?_of_start (h : d = '(' ∨ d = '!' ∨ isSpace d = true ∨ Text.isNamePart d = true) :
    double? c d = none := by
  have hne : d ≠ '&' ∧ d ≠ '|' ∧ d ≠ '=' ∧ d ≠ '<' ∧ d ≠ '>' ∧ d ≠ ':' ∧ d ≠ '%' ∧ d ≠ '-' := by
    refine ⟨?_, ?_, ?_, ?_, ?_, ?_, ?_, ?_⟩ <;> rintro rfl <;> revert h <;> decide
  unfold double?
  split <;> first | rfl | simp at hne

/-- A sign of comparison. -/
theorem tokens?_comparator (k : Comparator)
    (hr : ∀ d ∈ r.head?, d = '-' ∨ isSpace d = true ∨ Text.isNamePart d = true) :
    tokens? (k.sign false ++ r) = (tokens? r).map (.operator (.compared k) :: ·) := by
  have hsingle : ∀ d ∈ r.head?, double? '<' d = none ∧ double? '>' d = none := by
    intro d hd
    rcases hr d hd with rfl | h
    · exact ⟨rfl, rfl⟩
    · exact ⟨double?_of_start (.inr (.inr h)), double?_of_start (.inr (.inr h))⟩
  cases k with
  | less => exact tokens?_single rfl (fun d hd => (hsingle d hd).1) rfl rfl
  | greater => exact tokens?_single rfl (fun d hd => (hsingle d hd).2) rfl rfl
  | atMost => exact tokens?_double rfl rfl rfl
  | atLeast => exact tokens?_double rfl rfl rfl
  | equal => exact tokens?_double rfl rfl rfl
  | unequal => exact tokens?_double rfl rfl rfl

/-- A sign for a connective. -/
theorem tokens?_connective (k : Connective) :
    tokens? (k.doubled ++ r) = (tokens? r).map (.operator (.joined k) :: ·) := by
  cases k <;> exact tokens?_double rfl rfl rfl

end C

/-- A term is read. -/
theorem Term.tokens?_text (t : Term) {r : Text} (hr : Connective.isBoundary r.head? = true) :
    C.tokens? (t.text ++ r) = (C.tokens? r).map (t.tokens ++ ·) := by
  cases t with
  | named x =>
    have hparts : ∀ c ∈ x.text, Text.isNamePart c = true := fun c hc => Text.isNamePart_of_mem_name x.isName hc
    exact C.tokens?_word (Term.named x).tidy.ne_nil hparts hr
  | numeral negative n =>
    have hparts : ∀ c ∈ n.digits, Text.isNamePart c = true := fun c hc => Text.isNamePart_of_isDigit (n.isDigit c hc)
    have hdigits := C.tokens?_word n.ne_nil hparts hr
    cases negative with
    | false => exact hdigits
    | true =>
      have hminus : ∀ d ∈ (n.digits ++ r).head?, C.double? '-' d = none := by
        intro d hd
        rw [List.head?_append_of_ne_nil _ n.ne_nil] at hd
        exact C.double?_of_start (.inr (.inr (.inr (hparts d (List.mem_of_mem_head? hd)))))
      have hsign : C.tokens? ('-' :: (n.digits ++ r)) = (C.tokens? (n.digits ++ r)).map (.minus :: ·) :=
        C.tokens?_single rfl hminus rfl rfl
      rw [hdigits, Option.map_map] at hsign
      exact hsign

/-- A comparison in the spelling of C is read. -/
theorem Compared.tokens?_text (c : Compared) (hc : c.Plain) {r : Text} (hr : Connective.isBoundary r.head? = true) :
    C.tokens? (c.respelled.text ++ r) = (C.tokens? r).map (c.tokens ++ ·) := by
  have hleft : ∀ u, Connective.isBoundary (c.before.1 ++ (c.comparator.sign false ++ u)).head? = true := fun u =>
    Connective.isBoundary_blanks c.before.2 (c.comparator.isBoundary_sign false u)
  have hright : ∀ d ∈ (c.after.1 ++ (c.right.text ++ r)).head?,
      d = '-' ∨ C.isSpace d = true ∨ Text.isNamePart d = true := by
    refine Text.forall_head?_append (fun d hd => .inr (.inl (hc.2 d hd))) ?_
    obtain ⟨d, hd, hstart⟩ := c.right.head?_text
    rw [List.head?_append, hd]
    rintro _ ⟨⟩
    exact hstart.imp_right .inr
  unfold text tokens respelled
  simp only [List.append_assoc]
  rw [c.left.tokens?_text (hleft _), C.tokens?_spaces hc.1, C.tokens?_comparator _ hright, C.tokens?_spaces hc.2,
    c.right.tokens?_text hr, Option.map_map, Option.map_map]
  simp [Function.comp_def]

/-- A negation in the spelling of C is read. -/
theorem C.tokens?_negation {gap : Text} (hgap : Spaces gap) {c : Clause} {r : Text}
    {ts : List Token} (hc : tokens? (c.text ++ r) = (tokens? r).map (ts ++ ·)) :
    tokens? ('!' :: (gap ++ (c.text ++ r))) = (tokens? r).map (.not :: ts ++ ·) := by
  have hhead : ∀ d ∈ (gap ++ (c.text ++ r)).head?, double? '!' d = none := by
    refine Text.forall_head?_append (fun d hd => double?_of_start (.inr (.inr (.inl (hgap d hd))))) ?_
    obtain ⟨d, hd, hstart⟩ := c.head?_text
    rw [List.head?_append, hd]
    rintro _ ⟨⟩
    rcases Clause.isStart_iff.mp hstart with rfl | hstart
    · rfl
    · exact double?_of_start (hstart.imp_right fun h => h.imp_right .inr)
  have hsign : tokens? ('!' :: (gap ++ (c.text ++ r))) = (tokens? (gap ++ (c.text ++ r))).map (.not :: ·) :=
    tokens?_single rfl hhead rfl rfl
  rw [hsign, tokens?_spaces hgap, hc, Option.map_map]
  rfl

mutual

/-- A clause in the spelling of C is read, whatever follows it. -/
theorem Clause.tokens?_text : ∀ c : Clause, c.Plain → ∀ r : Text, Connective.Apart c.text r →
    C.tokens? (c.respelled.text ++ r) = (C.tokens? r).map (c.tokens ++ ·)
  | .compared c, hplain, r, happart => by
    obtain ⟨d, hlast, hend⟩ := c.isNamePart_getLast?
    exact c.tokens?_text hplain (happart.boundary hlast hend)
  | .group m f m', hplain, r, _ => by
    obtain ⟨hbefore, hinside, hafter⟩ := hplain
    have hend : Connective.Apart (Clauses.texts f).text (m'.1 ++ (')' :: r)) :=
      .inr (Connective.isBoundary_blanks m'.2 rfl)
    have hopening : ∀ u, C.tokens? ('(' :: u) = (C.tokens? u).map (.opening :: ·) := fun u =>
      C.tokens?_single rfl (fun d _ => rfl) rfl rfl
    have hclosing : ∀ u, C.tokens? (')' :: u) = (C.tokens? u).map (.closing :: ·) := fun u =>
      C.tokens?_single rfl (fun d _ => rfl) rfl rfl
    have htext : (Clause.group m f m').respelled.text ++ r =
        '(' :: (m.1 ++ ((Clauses.texts (Clauses.respelled f)).text ++ (m'.1 ++ (')' :: r)))) := by
      show Text.inParentheses _ ++ r = _
      simp [Text.inParentheses]
    rw [htext, hopening, C.tokens?_spaces hbefore, Clauses.tokens?_text f hinside _ hend, C.tokens?_spaces hafter,
      hclosing, Option.map_map, Option.map_map]
    simp [Function.comp_def, Clause.tokens]
  | .negation s gap c, hplain, r, happart => by
    have hinside : Connective.Apart c.text r := happart.congr (Clause.getLast?_negation s gap c)
    have hc := Clause.tokens?_text c hplain.2 r hinside
    cases s with
    | word => exact @C.tokens?_negation [] (by simp [C.Spaces]) c.respelled r _ hc
    | sign =>
      have htext : (Clause.negation .sign gap c).respelled.text ++ r = '!' :: (gap.1 ++ (c.respelled.text ++ r)) := by
        show ['!'] ++ (gap.1 ++ c.respelled.text) ++ r = _
        simp
      rw [htext]
      exact C.tokens?_negation hplain.1 hc

/-- A condition in the spelling of C is read, whatever follows it. -/
theorem Clauses.tokens?_text : ∀ f : Chain Clause, Clauses.Plain f → ∀ r : Text,
    Connective.Apart (Clauses.texts f).text r →
    C.tokens? ((Clauses.texts (Clauses.respelled f)).text ++ r) = (C.tokens? r).map (Clauses.tokens f ++ ·)
  | .single c, hplain, r, happart => Clause.tokens?_text c hplain r happart
  | .join c j rest, hplain, r, happart => by
    obtain ⟨hc, ⟨hbefore, hafter⟩, hrest⟩ := hplain
    have hinside : Connective.Apart (Clauses.texts rest).text r := happart.congr (Clauses.getLast?_join c j rest)
    have happart' : ∀ u, Connective.Apart c.text (j.before ++ (j.connective.doubled ++ u)) := fun u =>
      .inr (Connective.isBoundary_blanks hbefore.isBlank (by cases j.connective <;> rfl))
    have htext : (Clauses.texts (Clauses.respelled (.join c j rest))).text ++ r =
        c.respelled.text ++ (j.before ++ (j.connective.doubled ++
          (j.after ++ ((Clauses.texts (Clauses.respelled rest)).text ++ r)))) := by
      show (c.respelled.text ++ (j.respelled.text ++ (Clauses.texts (Clauses.respelled rest)).text)) ++ r = _
      simp [Joint.text, Joint.respelled, Connective.spelled]
    rw [htext, Clause.tokens?_text c hc _ (happart' _), C.tokens?_spaces hbefore, C.tokens?_connective,
      C.tokens?_spaces hafter, Clauses.tokens?_text rest hrest r hinside, Option.map_map, Option.map_map]
    simp [Function.comp_def, Clauses.tokens]

end

/-! ### Grouping -/

/-- A term in C. -/
def Term.expr : Term → C.Expr
  | named x => .named (String.ofList x.text)
  | numeral false n => .number n.value
  | numeral true n => .negative (.number n.value)

/-- C has the same term: a name that is not reserved, or a numeral that is not taken for one in base eight. -/
def Term.Readable : Term → Prop
  | named x => String.ofList x.text ∉ C.reserved
  | numeral _ n => n.digits.head? = some '0' → n.digits = ['0']

instance : (t : Term) → Decidable t.Readable
  | .named _ => inferInstanceAs (Decidable (_ ∉ _))
  | .numeral _ n => inferInstanceAs (Decidable (n.digits.head? = some '0' → n.digits = ['0']))

def Compared.Readable (c : Compared) : Prop := c.left.Readable ∧ c.right.Readable

instance (c : Compared) : Decidable c.Readable := inferInstanceAs (Decidable (_ ∧ _))

/-- All terms are the same in C. -/
def Clauses.Readable (f : Clauses) : Prop := ∀ c ∈ comparisons f, c.Readable

instance (f : Clauses) : Decidable f.Readable := inferInstanceAs (Decidable (∀ c ∈ Clauses.comparisons f, c.Readable))

/-- The comparison that follows the terms and signs at the beginning of a clause, if one does. -/
def Clause.behind : Clause → Option (Comparator × Term)
  | .compared c => some (c.comparator, c.right)
  | .group _ _ _ => none
  | .negation _ _ c => c.behind

/-- An expression compared with what follows it. -/
def C.Expr.comparedWith (e : Expr) : Option (Comparator × Term) → Expr
  | some (k, t) => .binary (.compared k) e t.expr
  | none => e

/-- An expression behind another one and an operator. -/
def C.Expr.after (o : Operator) : Option Expr → Expr → Expr
  | some left, e => .binary o left e
  | none, e => e

/-- A chain as C groups it: what is joined by *and* belongs together.  The alternatives that are complete and the
operands of the alternative that is not are given. -/
def Chain.grouped : Option C.Expr → Option C.Expr → Chain C.Expr → C.Expr
  | alternatives, operands, .single e =>
    C.Expr.after (.joined .or) alternatives (C.Expr.after (.joined .and) operands e)
  | alternatives, operands, .join e j rest =>
    match j.connective with
    | .and => grouped alternatives (some (C.Expr.after (.joined .and) operands e)) rest
    | .or =>
      grouped (some (C.Expr.after (.joined .or) alternatives (C.Expr.after (.joined .and) operands e))) none rest

mutual

/-- The beginning of a clause in C: a term or a condition in parentheses, with the negations before it. -/
def Clause.unary : Clause → C.Expr
  | .compared c => c.left.expr
  | .group _ f _ => (Clauses.exprs f).grouped none none
  | .negation _ _ c => .not c.unary

/-- The clauses of a condition in C. -/
def Clauses.exprs : Chain Clause → Chain C.Expr
  | .single c => .single (c.unary.comparedWith c.behind)
  | .join c j rest => .join (c.unary.comparedWith c.behind) j (Clauses.exprs rest)

end

/-- A clause in C. -/
def Clause.expr (c : Clause) : C.Expr := c.unary.comparedWith c.behind

/-- A condition in C. -/
def Clauses.expr (f : Clauses) : C.Expr := (exprs f).grouped none none

/-- The tokens of what follows the beginning of a clause. -/
def Clause.behindTokens (c : Clause) : List C.Token :=
  match c.behind with
  | some (k, t) => .operator (.compared k) :: t.tokens
  | none => []

/-! ### Reading -/

namespace C

variable {n level : Nat} {e : Expr} {r : List Token}

/-- No operator of the level or of a higher one comes next. -/
def Stops (level : Nat) (r : List Token) : Prop := ∀ o rest, r = .operator o :: rest → o.level < level

theorem operations?_of_stops (h : Stops level r) : operations? n level e r = some (e, r) := by
  cases n with
  | zero => rfl
  | succ n =>
    cases r with
    | nil => rfl
    | cons t r =>
      cases t with
      | operator o =>
        have hlevel := h o r rfl
        rw [operations?, if_neg (by omega)]
      | _ => rfl

theorem operations?_operator {o : Operator} (h : level ≤ o.level) :
    operations? (n + 1) level e (.operator o :: r) =
      (expression? n (o.level + 1) r).bind fun q => operations? n level (.binary o e q.1) q.2 := by
  rw [operations?, if_pos h]
  rfl

/-- A numeral that begins with no nought but its only digit is a constant with the same value. -/
theorem constant?_digits {m : Numeral} (h : m.digits.head? = some '0' → m.digits = ['0']) (hm : m.value < 2 ^ 53) :
    constant? m.digits = some m.value := by
  have hall : m.digits.all Char.isDigit = true := List.all_eq_true.mpr m.isDigit
  by_cases hzero : m.digits.head? = some '0'
  · have hvalue : m.value = 0 := by
      unfold Numeral.value
      rw [h hzero]
      rfl
    rw [hvalue, h hzero]
    rfl
  · have hbase : (if m.digits.head? = some '0' then Nat.ofDigitChars 8 m.digits 0 else Nat.ofDigitChars 10 m.digits 0) =
        m.value := if_neg hzero
    have hbound : m.value < 2 ^ 63 := by omega
    unfold constant?
    dsimp only
    rw [hbase]
    simpa [hall, hzero] using hbound

theorem term?_name {x : VariableName} (h : String.ofList x.text ∉ reserved) :
    term? x.text = some (.named (String.ofList x.text)) := by
  unfold term?
  rw [if_pos x.isName, if_neg h]

theorem term?_digits {m : Numeral} (h : m.digits.head? = some '0' → m.digits = ['0']) (hm : m.value < 2 ^ 53) :
    term? m.digits = some (.number m.value) := by
  have hname : Text.isName m.digits = false := by
    obtain ⟨c, u, hu⟩ := List.exists_cons_of_ne_nil m.ne_nil
    have hdigit := m.isDigit c (by rw [hu]; exact List.mem_cons_self)
    have hstart : Text.isNameStart c = false := by
      cases hc : Text.isNameStart c with
      | false => rfl
      | true =>
        have hno := Text.isDigit_of_isNameStart hc
        rw [Text.isDigit_of_ascii hdigit] at hno
        cases hno
    rw [hu]
    simp [Text.isName, hstart]
  unfold term?
  rw [hname, constant?_digits h hm]
  rfl

/-- A term is read as an operand. -/
theorem operand?_term {t : Term} (h : t.Readable) (hexact : t.Exact) (hn : (t.tokens ++ r).length ≤ n) :
    operand? n (t.tokens ++ r) = some (t.expr, r) := by
  cases t with
  | named x =>
    cases n with
    | zero => simp [Term.tokens] at hn
    | succ n =>
      show operand? (n + 1) (.word x.text :: r) = _
      rw [operand?, term?_name h]
      rfl
  | numeral negative m =>
    cases negative with
    | false =>
      cases n with
      | zero => simp [Term.tokens] at hn
      | succ n =>
        show operand? (n + 1) (.word m.digits :: r) = _
        rw [operand?, term?_digits h hexact]
        rfl
    | true =>
      match n with
      | 0 => simp [Term.tokens] at hn
      | 1 => simp [Term.tokens] at hn
      | n + 2 =>
        show operand? (n + 2) (.minus :: .word m.digits :: r) = _
        rw [operand?, operand?, term?_digits h hexact]
        rfl

end C

/-- The beginning of a clause is read, and what follows it is left over. -/
def Clause.Begins (c : Clause) : Prop :=
  ∀ n r, (c.tokens ++ r).length ≤ n → C.operand? n (c.tokens ++ r) = some (c.unary, c.behindTokens ++ r)

/-- More than what follows its beginning belongs to a clause. -/
theorem Clause.length_behindTokens_lt : ∀ c : Clause, c.behindTokens.length < c.tokens.length
  | .compared c => by
    have hleft : 0 < c.left.tokens.length := by
      cases c.left with
      | named x => exact Nat.one_pos
      | numeral negative n => cases negative <;> exact Nat.succ_pos _
    show (C.Token.operator _ :: c.right.tokens).length <
      (c.left.tokens ++ (C.Token.operator _ :: c.right.tokens)).length
    rw [List.length_append]
    omega
  | .group _ f _ => by
    show 0 < (C.Token.opening :: _).length
    exact Nat.zero_lt_succ _
  | .negation _ _ c => Nat.lt_succ_of_lt (Clause.length_behindTokens_lt c)

/-- **A clause is read**, and reading goes on with the operators behind it. -/
theorem Clause.Begins.expression? {c : Clause} (h : c.Begins)
    (hbehind : ∀ k t, c.behind = some (k, t) → t.Readable ∧ t.Exact) {n level : Nat} {r : List C.Token}
    (hlevel : level ≤ 3) (hn : (c.tokens ++ r).length ≤ n) (hr : C.Stops 3 r) :
    ∃ m, r.length ≤ m ∧ C.expression? n level (c.tokens ++ r) = C.operations? m level c.expr r := by
  have hbegins := h n r hn
  have hlength := c.length_behindTokens_lt
  unfold C.expression? Clause.expr
  rw [hbegins, Option.bind_some]
  cases hc : c.behind with
  | none =>
    have htokens : c.behindTokens = [] := by
      unfold Clause.behindTokens
      rw [hc]
    refine ⟨n, ?_, ?_⟩
    · rw [List.length_append] at hn
      omega
    · rw [htokens]
      rfl
  | some behind =>
    obtain ⟨k, t⟩ := behind
    obtain ⟨hread, hexact⟩ := hbehind k t hc
    have htokens : c.behindTokens = .operator (.compared k) :: t.tokens := by
      unfold Clause.behindTokens
      rw [hc]
    have hk : 3 ≤ (C.Operator.compared k).level := by cases k <;> decide
    rw [htokens, List.length_cons] at hlength
    rw [List.length_append] at hn
    obtain ⟨m, rfl⟩ : ∃ m, n = m + 1 := ⟨n - 1, by omega⟩
    have hright : C.expression? m ((C.Operator.compared k).level + 1) (t.tokens ++ r) = some (t.expr, r) := by
      have hstops : C.Stops ((C.Operator.compared k).level + 1) r := fun o rest ho => by
        have hlevel := hr o rest ho
        omega
      unfold C.expression?
      rw [C.operand?_term hread hexact (by rw [List.length_append]; omega), Option.bind_some,
        C.operations?_of_stops hstops]
    refine ⟨m, by omega, ?_⟩
    rw [htokens, List.cons_append, C.operations?_operator (by omega), hright]
    rfl

/-! ### Reading a chain -/

/-- Reads on where alternatives and operands wait for what comes next.  The numbers of tokens that may be read are
those of the readings that wait. -/
def C.reading (n m k : Nat) (ts : List Token) : Option Expr → Option Expr → Option (Expr × List Token)
  | none, none => expression? n 1 ts
  | none, some p => (expression? n 3 ts).bind fun q => operations? k 1 (.binary (.joined .and) p q.1) q.2
  | some d, none => (expression? n 2 ts).bind fun q => operations? k 1 (.binary (.joined .or) d q.1) q.2
  | some d, some p =>
    ((expression? n 3 ts).bind fun q => operations? m 2 (.binary (.joined .and) p q.1) q.2).bind fun q =>
      operations? k 1 (.binary (.joined .or) d q.1) q.2

namespace C

variable {n m k : Nat} {e : Expr} {us ts : List Token}

/-- An operand has been read in front of an operator. -/
def ReadBefore (n : Nat) (us : List Token) (e : Expr) (o : Operator) (ts : List Token) : Prop :=
  ∀ level, level ≤ 3 → ∃ i, ts.length ≤ i ∧ expression? n level us = operations? (i + 1) level e (.operator o :: ts)

theorem operations?_ends {i level : Nat} {o : Operator} (h : o.level < level) :
    operations? i level e (.operator o :: ts) = some (e, .operator o :: ts) :=
  operations?_of_stops fun p rest hp => by
    cases hp
    exact h

/-- Behind an *and*, one more operand waits. -/
theorem reading_and (h : ReadBefore n us e (.joined .and) ts) (hm : ts.length ≤ m) (hk : ts.length ≤ k)
    (alternatives operands : Option Expr) :
    ∃ n' m' k', ts.length ≤ n' ∧ ts.length ≤ m' ∧ ts.length ≤ k' ∧
      reading n (m + 1) (k + 1) us alternatives operands =
        reading n' m' k' ts alternatives (some (e.after (.joined .and) operands)) := by
  obtain ⟨i₁, hi₁, h₁⟩ := h 1 (by decide)
  obtain ⟨i₂, hi₂, h₂⟩ := h 2 (by decide)
  obtain ⟨i₃, hi₃, h₃⟩ := h 3 (by decide)
  rw [operations?_operator (by decide)] at h₁ h₂
  rw [operations?_ends (by decide)] at h₃
  cases alternatives with
  | none =>
    cases operands with
    | none => exact ⟨i₁, i₁, i₁, hi₁, hi₁, hi₁, h₁⟩
    | some p =>
      refine ⟨k, k, k, hk, hk, hk, ?_⟩
      simp only [reading, h₃, Option.bind_some]
      exact operations?_operator (by decide)
  | some d =>
    cases operands with
    | none =>
      refine ⟨i₂, i₂, k + 1, hi₂, hi₂, by omega, ?_⟩
      simp only [reading, h₂]
      rfl
    | some p =>
      refine ⟨m, m, k + 1, hm, hm, by omega, ?_⟩
      simp only [reading, h₃, Option.bind_some]
      rw [operations?_operator (by decide)]
      rfl

/-- Behind an *or*, what waited makes one more alternative. -/
theorem reading_or (h : ReadBefore n us e (.joined .or) ts) (hk : ts.length ≤ k)
    (alternatives operands : Option Expr) :
    ∃ n' m' k', ts.length ≤ n' ∧ ts.length ≤ m' ∧ ts.length ≤ k' ∧
      reading n m (k + 1) us alternatives operands =
        reading n' m' k' ts (some ((e.after (.joined .and) operands).after (.joined .or) alternatives)) none := by
  obtain ⟨i₁, hi₁, h₁⟩ := h 1 (by decide)
  obtain ⟨i₂, hi₂, h₂⟩ := h 2 (by decide)
  obtain ⟨i₃, hi₃, h₃⟩ := h 3 (by decide)
  rw [operations?_operator (by decide)] at h₁
  rw [operations?_ends (by decide)] at h₂ h₃
  cases alternatives with
  | none =>
    cases operands with
    | none => exact ⟨i₁, i₁, i₁, hi₁, hi₁, hi₁, h₁⟩
    | some p =>
      refine ⟨k, k, k, hk, hk, hk, ?_⟩
      simp only [reading, h₃, Option.bind_some]
      exact operations?_operator (by decide)
  | some d =>
    refine ⟨k, k, k, hk, hk, hk, ?_⟩
    cases operands with
    | none =>
      simp only [reading, h₂, Option.bind_some]
      exact operations?_operator (by decide)
    | some p =>
      simp only [reading, h₃, Option.bind_some]
      rw [operations?_ends (by decide), Option.bind_some]
      exact operations?_operator (by decide)

end C

/-- What has to be known of the clauses of a chain. -/
def Clause.Reads (c : Clause) : Prop := c.Begins ∧ ∀ k t, c.behind = some (k, t) → t.Readable ∧ t.Exact

/-- **A chain is read as C groups it**, by induction on its clauses, whatever waits in front of it. -/
theorem Clauses.reading_tokens {f : Chain Clause} (h : ∀ c ∈ f.toList, c.Reads) {n m k : Nat} {r : List C.Token}
    (hr : C.Stops 1 r) (hn : (Clauses.tokens f ++ r).length ≤ n) (hm : (Clauses.tokens f ++ r).length ≤ m)
    (hk : (Clauses.tokens f ++ r).length ≤ k) (alternatives operands : Option C.Expr) :
    C.reading n m k (Clauses.tokens f ++ r) alternatives operands =
      some ((Clauses.exprs f).grouped alternatives operands, r) := by
  have hstops : ∀ level, 1 ≤ level → C.Stops level r := fun level hlevel o rest ho =>
    Nat.lt_of_lt_of_le (hr o rest ho) hlevel
  induction f generalizing n m k alternatives operands with
  | single c =>
    obtain ⟨hbegins, hbehind⟩ := h c List.mem_cons_self
    have hread : ∀ level, 1 ≤ level → level ≤ 3 → C.expression? n level (c.tokens ++ r) = some (c.expr, r) := by
      intro level hlow hhigh
      obtain ⟨i, -, hi⟩ := hbegins.expression? hbehind hhigh hn (hstops 3 (by decide))
      rw [hi, C.operations?_of_stops (hstops level hlow)]
    show C.reading n m k (c.tokens ++ r) alternatives operands = _
    cases alternatives <;> cases operands <;>
      simp only [C.reading, hread 1 (by decide) (by decide), hread 2 (by decide) (by decide),
        hread 3 (by decide) (by decide), Option.bind_some, C.operations?_of_stops (hstops 1 (by decide)),
        C.operations?_of_stops (hstops 2 (by decide))] <;> rfl
  | join c j rest ih =>
    obtain ⟨hbegins, hbehind⟩ := h c List.mem_cons_self
    have htokens : Clauses.tokens (.join c j rest) ++ r =
        c.tokens ++ (.operator (.joined j.connective) :: (Clauses.tokens rest ++ r)) := by
      simp [Clauses.tokens]
    rw [htokens] at hn hm hk ⊢
    have hread : C.ReadBefore n (c.tokens ++ (.operator (.joined j.connective) :: (Clauses.tokens rest ++ r))) c.expr
        (.joined j.connective) (Clauses.tokens rest ++ r) := by
      intro level hhigh
      obtain ⟨i, hi, heq⟩ := hbegins.expression? hbehind hhigh hn fun o rest ho => by
        cases ho
        cases j.connective <;> decide
      rw [List.length_cons] at hi
      obtain ⟨i, rfl⟩ : ∃ i', i = i' + 1 := ⟨i - 1, by omega⟩
      exact ⟨i, by omega, heq⟩
    have hlength : 0 < c.tokens.length := Nat.zero_lt_of_lt c.length_behindTokens_lt
    rw [List.length_append, List.length_cons] at hn hm hk
    obtain ⟨m, rfl⟩ : ∃ m', m = m' + 1 := ⟨m - 1, by omega⟩
    obtain ⟨k, rfl⟩ : ∃ k', k = k' + 1 := ⟨k - 1, by omega⟩
    have hrest := fun d hd => h d (List.mem_cons_of_mem c hd)
    unfold exprs Chain.grouped
    cases hj : j.connective with
    | and =>
      rw [hj] at hread
      obtain ⟨n', m', k', hn', hm', hk', heq⟩ :=
        C.reading_and hread (by omega : _ ≤ m) (by omega : _ ≤ k) alternatives operands
      rw [heq]
      exact ih hrest hn' hm' hk' _ _
    | or =>
      rw [hj] at hread
      obtain ⟨n', m', k', hn', hm', hk', heq⟩ := C.reading_or hread (by omega : _ ≤ k) alternatives operands
      rw [heq]
      exact ih hrest hn' hm' hk' _ _

/-- A whole chain is read. -/
theorem Clauses.expression?_tokens {f : Clauses} (h : ∀ c ∈ f.toList, c.Reads) {n : Nat} {r : List C.Token}
    (hr : C.Stops 1 r) (hn : (tokens f ++ r).length ≤ n) : C.expression? n 1 (tokens f ++ r) = some (f.expr, r) :=
  reading_tokens h hr hn hn hn none none

/-- What follows the beginning of a clause belongs to one of its comparisons. -/
theorem Clause.exists_of_behind {k : Comparator} {t : Term} :
    ∀ {c : Clause}, c.behind = some (k, t) → ∃ p ∈ c.comparisons, p.right = t
  | .compared p, h => by
    cases h
    exact ⟨p, List.mem_cons_self, rfl⟩
  | .group _ _ _, h => by cases h
  | .negation _ _ c, h => Clause.exists_of_behind (c := c) h

theorem Clause.reads_of_begins {c : Clause} (hc : c.Begins) (h : ∀ p ∈ c.comparisons, p.Readable ∧ p.Exact) :
    c.Reads := by
  refine ⟨hc, fun k t hbehind => ?_⟩
  obtain ⟨p, hp, rfl⟩ := Clause.exists_of_behind hbehind
  exact ⟨(h p hp).1.2, (h p hp).2.2⟩

mutual

/-- **The beginning of a clause is read**: a term, or what is in parentheses, and negations before it. -/
theorem Clause.begins : ∀ c : Clause, (∀ p ∈ c.comparisons, p.Readable ∧ p.Exact) → c.Begins
  | .compared p, h, n, r, hn => by
    obtain ⟨hread, hexact⟩ := h p List.mem_cons_self
    show C.operand? n (p.tokens ++ r) = some (p.left.expr, (.operator (.compared p.comparator) :: p.right.tokens) ++ r)
    have htokens : p.tokens ++ r = p.left.tokens ++ ((.operator (.compared p.comparator) :: p.right.tokens) ++ r) := by
      simp [Compared.tokens]
    have hn' : (p.tokens ++ r).length ≤ n := hn
    rw [htokens] at hn' ⊢
    exact C.operand?_term hread.1 hexact.1 hn'
  | .group m f m', h, n, r, hn => by
    have htokens : (Clause.group m f m').tokens ++ r = .opening :: (Clauses.tokens f ++ (.closing :: r)) := by
      simp [Clause.tokens]
    rw [htokens] at hn ⊢
    rw [List.length_cons] at hn
    obtain ⟨n, rfl⟩ : ∃ n', n = n' + 1 := ⟨n - 1, by omega⟩
    have hinside : C.expression? n 1 (Clauses.tokens f ++ (.closing :: r)) = some (Clauses.expr f, .closing :: r) :=
      Clauses.expression?_tokens (Clauses.reads f h) (fun o rest ho => by cases ho) (by omega)
    unfold C.expression? at hinside
    rw [C.operand?, hinside]
    rfl
  | .negation s gap c, h, n, r, hn => by
    have htokens : (Clause.negation s gap c).tokens ++ r = .not :: (c.tokens ++ r) := rfl
    rw [htokens] at hn ⊢
    rw [List.length_cons] at hn
    obtain ⟨n, rfl⟩ : ∃ n', n = n' + 1 := ⟨n - 1, by omega⟩
    rw [C.operand?, Clause.begins c h n r (by omega)]
    rfl

/-- The clauses of a condition are read. -/
theorem Clauses.reads : ∀ f : Chain Clause, (∀ p ∈ Clauses.comparisons f, p.Readable ∧ p.Exact) →
    ∀ c ∈ f.toList, c.Reads
  | .single c, h => by
    intro d hd
    rw [List.mem_singleton.mp hd]
    exact Clause.reads_of_begins (Clause.begins c h) h
  | .join c j rest, h => by
    intro d hd
    have hc : ∀ p ∈ c.comparisons, p.Readable ∧ p.Exact := fun p hp => h p (List.mem_append_left _ hp)
    rcases List.mem_cons.mp hd with heq | hd
    · rw [heq]
      exact Clause.reads_of_begins (Clause.begins c hc) hc
    · exact Clauses.reads rest (fun p hp => h p (List.mem_append_right _ hp)) d hd

end

/-- **C reads the translation of a condition** over whole numbers, and groups it by its own precedence. -/
theorem Clauses.read?_condition {f : Clauses} (h : Parted f) (hplain : Plain f) (hread : f.Readable) (hexact : f.Exact)
    {t : Text} (ht : Condition.question t = f.text) : C.read? (Code.condition t) = some f.expr := by
  have htokens := tokens?_text f hplain [] (.inr rfl)
  rw [List.append_nil] at htokens
  have hexpression : C.expression? (tokens f).length 1 (tokens f ++ []) = some (f.expr, []) :=
    expression?_tokens (reads f fun p hp => ⟨hread p hp, hexact p hp⟩) (fun o rest ho => by cases ho) (by simp)
  rw [List.append_nil] at hexpression
  have htext : C.tokens? (Clauses.text (respelled f)) = some (tokens f) := by
    refine htokens.trans ?_
    simp [C.tokens?]
  unfold C.read?
  rw [condition_eq h hplain ht, htext, Option.bind_some, hexpression]

end Flowchart
