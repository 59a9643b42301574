import Flowchart.Proofs.Label.CallStatements
import Flowchart.Proofs.Label.Spellings

/-!
# Semicolons behind statements

A statement may end with semicolons, and they do not belong to it: they are taken off before the statement is read.
Blanks are taken off, then one run of semicolons, then blanks once more, and that is all.  So semicolons can be put behind
a label without a change to its statement as long as they make one run; a semicolon that blanks separate from the one
before it leaves that one in the statement.

* `Text.Contiguous` — no blanks alone stand between an appended semicolon and the semicolon before it.
* `Text.chopped_contiguous`, `Text.chopped_apart`, **`Text.chopped_append`** — what one more semicolon does to what is
  taken off, and what any number of semicolons and blanks do.
* `Exacting` — a reader of statements that sees every semicolon left in them; `exacting_*` say it of the readers of
  assignments, outputs and calls.
* `behindKeyword_append` — a keyword is found without regard to what ends the statement.
* **`Block.instruction_terminated`** — a label with semicolons and blanks behind it is read as before if and only if the
  semicolons are contiguous.
-/

namespace Flowchart

namespace Text

variable {s t u w p : Text}

/-- Semicolons and blanks: what may be taken off behind a statement. -/
def isTerminating (c : Char) : Bool := c == ';' || isBlank c

theorem isTerminating_iff {c : Char} : isTerminating c = true ↔ c = ';' ∨ isBlank c = true := by
  rw [isTerminating, Bool.or_eq_true, beq_iff_eq]

/-- No blanks alone stand between a semicolon in the second text, which is put behind the first, and the semicolon
before it. -/
def Contiguous : Text → Text → Prop
  | _, [] => True
  | t, c :: w => (c = ';' → (trimEnd t).getLast? = some ';' → t.getLast? = some ';') ∧ Contiguous (t ++ [c]) w

instance decidableContiguous : ∀ t w : Text, Decidable (Contiguous t w)
  | _, [] => inferInstanceAs (Decidable True)
  | t, c :: w => @instDecidableAnd _ _ inferInstance (decidableContiguous (t ++ [c]) w)

/-- A text without the end that is taken off where a statement is read. -/
def chopped (t : Text) : Text := trimEnd (withoutEnd ';' (trimEnd t))

/-! ### One more character -/

theorem chopped_blank {c : Char} (hc : isBlank c = true) (t : Text) : chopped (t ++ [c]) = chopped t := by
  rw [chopped, trimEnd_concat, if_pos hc, chopped]

/-- Behind a semicolon, the whole run of semicolons is taken off. -/
theorem chopped_semicolon (t : Text) : chopped (t ++ [';']) = trimEnd (withoutEnd ';' t) := by
  have hrun : withoutEnd ';' (t ++ [';']) = withoutEnd ';' t := List.rdropWhile_concat_pos _ _ _ rfl
  rw [chopped, trimEnd_concat, if_neg (by decide), hrun]

/-- A semicolon that goes on a run, or begins the only one, is taken off. -/
theorem chopped_contiguous (h : (trimEnd t).getLast? = some ';' → t.getLast? = some ';') :
    chopped (t ++ [';']) = chopped t := by
  rw [chopped_semicolon, chopped]
  by_cases hlast : t.getLast? = some ';'
  · have hend : trimEnd t = t := by
      refine trimEnd_eq_self fun c hc => ?_
      rw [hlast] at hc
      cases hc
      rfl
    rw [hend]
  · rw [withoutEnd_eq_self hlast, withoutEnd_eq_self (mt h hlast), trimEnd_trimEnd]

/-- A semicolon behind blanks that stand behind a semicolon leaves this one where it is. -/
theorem chopped_apart (h : (trimEnd t).getLast? = some ';') (hlast : t.getLast? ≠ some ';') :
    ∃ more, chopped (t ++ [';']) = chopped t ++ more ∧ more.getLast? = some ';' := by
  have hlonger : chopped (t ++ [';']) = trimEnd t := by rw [chopped_semicolon, withoutEnd_eq_self hlast]
  obtain ⟨body, hbody⟩ := List.getLast?_eq_some_iff.mp h
  have hrun : withoutEnd ';' (body ++ [';']) = withoutEnd ';' body := List.rdropWhile_concat_pos _ _ _ rfl
  have hchopped : chopped t = trimEnd (withoutEnd ';' body) := by rw [chopped, hbody, hrun]
  obtain ⟨more, hmore⟩ : chopped t <+: body := hchopped ▸ (prefix_trimEnd _).trans (List.rdropWhile_prefix _ body)
  refine ⟨more ++ [';'], ?_, List.getLast?_concat⟩
  rw [hlonger, hbody, ← hmore, List.append_assoc]

/-! ### Many more characters -/

/-- **What is put behind a text** is taken off if its semicolons are contiguous, and otherwise a semicolon that was taken
off before is left with what stands in front of it.  By induction on what is put behind, one character at a time. -/
theorem chopped_append (hw : ∀ c ∈ w, isTerminating c = true) (t : Text) :
    ∃ more, chopped (t ++ w) = chopped t ++ more ∧ (more = [] ↔ Contiguous t w) ∧
      (more ≠ [] → more.getLast? = some ';') := by
  induction w generalizing t with
  | nil => exact ⟨[], by simp, by simp [Contiguous], fun h => absurd rfl h⟩
  | cons c w ih =>
    obtain ⟨more, hmore, hiff, hlast⟩ := ih (fun d hd => hw d (List.mem_cons_of_mem c hd)) (t ++ [c])
    rw [List.append_assoc, List.singleton_append] at hmore
    by_cases hgood : c = ';' → (trimEnd t).getLast? = some ';' → t.getLast? = some ';'
    · -- The character is taken off.
      have hsame : chopped (t ++ [c]) = chopped t := by
        rcases isTerminating_iff.mp (hw c List.mem_cons_self) with rfl | hc
        · exact chopped_contiguous (hgood rfl)
        · exact chopped_blank hc t
      rw [hsame] at hmore
      exact ⟨more, hmore, by rw [hiff, Contiguous, and_iff_right hgood], hlast⟩
    · -- The character is a semicolon, and the one before it comes back.
      simp only [Classical.not_imp] at hgood
      obtain ⟨rfl, hbefore, hgap⟩ := hgood
      obtain ⟨first, hfirst, hsemicolon⟩ := chopped_apart hbefore hgap
      have hne : first ≠ [] := by
        rintro rfl
        cases hsemicolon
      refine ⟨first ++ more, by rw [hmore, hfirst, List.append_assoc], ?_, fun _ => ?_⟩
      · refine iff_of_false (fun h => hne (List.append_eq_nil_iff.mp h).1) fun h => ?_
        exact hgap (h.1 rfl hbefore)
      · by_cases hmorenil : more = []
        · rw [hmorenil, List.append_nil, hsemicolon]
        · rw [List.getLast?_append_of_ne_nil first hmorenil, hlast hmorenil]

/-- What is taken off is made of semicolons and blanks. -/
theorem exists_chopped (t : Text) : ∃ rest, t = chopped t ++ rest ∧ ∀ c ∈ rest, isTerminating c = true := by
  have hblank : ∀ {m : Text}, (∀ c ∈ m, isBlank c = true) → ∀ c ∈ m, isTerminating c = true := by
    intro m hm c hc
    rw [isTerminating, hm c hc, Bool.or_true]
  obtain ⟨behind, hbehind, hall⟩ := exists_blanks_trimEnd t
  obtain ⟨between, hbetween, hall'⟩ := exists_blanks_trimEnd (withoutEnd ';' (trimEnd t))
  have hrun : trimEnd t = withoutEnd ';' (trimEnd t) ++ (trimEnd t).rtakeWhile (· == ';') :=
    List.rdropWhile_append_rtakeWhile.symm
  refine ⟨between ++ (trimEnd t).rtakeWhile (· == ';') ++ behind, ?_, ?_⟩
  · rw [chopped, ← List.append_assoc, ← List.append_assoc, ← hbetween, ← hrun, ← hbehind]
  · intro c hc
    rcases List.mem_append.mp hc with hc | hc
    · rcases List.mem_append.mp hc with hc | hc
      · exact hblank hall' c hc
      · rw [isTerminating, List.mem_rtakeWhile_imp hc, Bool.true_or]
    · exact hblank hall c hc

/-- What is left of the end of a statement is made of semicolons and blanks, too. -/
theorem isTerminating_of_chopped {more : Text} (hw : ∀ c ∈ w, isTerminating c = true)
    (h : chopped (t ++ w) = chopped t ++ more) : ∀ c ∈ more, isTerminating c = true := by
  obtain ⟨rest, hrest, hall⟩ := exists_chopped t
  obtain ⟨rest', hrest', -⟩ := exists_chopped (t ++ w)
  have hends : more ++ rest' = rest ++ w := by
    have hboth : chopped t ++ (more ++ rest') = chopped t ++ (rest ++ w) := by
      rw [← List.append_assoc, ← h, ← hrest', ← List.append_assoc, ← hrest]
    exact List.append_cancel_left hboth
  intro c hc
  have hmem : c ∈ rest ++ w := hends ▸ List.mem_append_left rest' hc
  rcases List.mem_append.mp hmem with hmem | hmem
  · exact hall c hmem
  · exact hw c hmem

/-! ### What stands in front -/

/-- A text that does not begin with a blank is more than a margin. -/
theorem trimEnd_ne_nil (hne : s ≠ []) (hs : trimStart s = s) : trimEnd s ≠ [] := by
  intro hnil
  obtain ⟨m, hm, hblank⟩ := exists_blanks_trimEnd s
  rw [hnil, List.nil_append] at hm
  rw [hm, trimStart_blanks hblank] at hs
  exact hne (hm.trans hs.symm)

theorem trimEnd_append_left (hne : s ≠ []) (hs : trimStart s = s) (p : Text) : trimEnd (p ++ s) = p ++ trimEnd s := by
  obtain ⟨m, hm, hblank⟩ := exists_blanks_trimEnd s
  have hlast : ∀ c ∈ (p ++ trimEnd s).getLast?, isBlank c = false := by
    rw [List.getLast?_append_of_ne_nil p (trimEnd_ne_nil hne hs)]
    exact getLast?_trimEnd s
  have happend := trimEnd_append hblank hlast
  rwa [List.append_assoc, ← hm] at happend

/-- What stands in front of a statement makes no difference to the semicolons behind it. -/
theorem contiguous_append (hne : s ≠ []) (hs : trimStart s = s) (p w : Text) :
    Contiguous (p ++ s) w ↔ Contiguous s w := by
  induction w generalizing s with
  | nil => exact Iff.rfl
  | cons c w ih =>
    have hsc : trimStart (s ++ [c]) = s ++ [c] := by
      rw [trimStart_append_of_ne_nil (by rwa [hs]), hs]
    rw [Contiguous, Contiguous, List.append_assoc, ih (List.append_ne_nil_of_left_ne_nil hne [c]) hsc,
      trimEnd_append_left hne hs, List.getLast?_append_of_ne_nil p hne,
      List.getLast?_append_of_ne_nil p (trimEnd_ne_nil hne hs)]

end Text

/-! ### Readers of statements -/

/-- A reader of statements finds nothing in an empty one, and reads something else when a semicolon is left. -/
structure Exacting (read : Text → Except String Instruction) : Prop where
  empty : ∀ i, read [] ≠ .ok i
  extended : ∀ {t body : Text} {i : Instruction}, Text.trim t = t → '=' ∉ body → read t = .ok i →
    read (t ++ (body ++ [';'])) ≠ .ok i

/-- **What is read from a statement** is read from it with semicolons and blanks behind it if and only if the semicolons
are contiguous. -/
theorem Exacting.eq_ok_iff {read : Text → Except String Instruction} (hread : Exacting read) {s w : Text}
    (hs : Text.trimStart s = s) (hw : ∀ c ∈ w, Text.isTerminating c = true) {i : Instruction}
    (hi : read (Text.chopped s) = .ok i) : read (Text.chopped (s ++ w)) = .ok i ↔ Text.Contiguous s w := by
  obtain ⟨more, hmore, hiff, hlast⟩ := Text.chopped_append hw s
  rw [← hiff, hmore]
  constructor
  · intro h
    by_contra hne
    obtain ⟨body, rfl⟩ := List.getLast?_eq_some_iff.mp (hlast hne)
    have hsign : '=' ∉ body := fun hmem =>
      absurd (Text.isTerminating_of_chopped hw hmore '=' (List.mem_append_left _ hmem)) (by decide)
    have htrim : Text.trim (Text.chopped s) = Text.chopped s := by
      have hstatement := trim_withoutTerminator s
      rwa [show withoutTerminator s = Text.chopped (Text.trimStart s) from rfl, hs] at hstatement
    exact hread.extended htrim hsign hi h
  · rintro rfl
    rwa [List.append_nil]

/-! ### Assignments -/

/-- Where no equality sign stands in it, what is put behind a text belongs to the right side. -/
theorem loneEquals?_append_of_not_mem {more : Text} (h : '=' ∉ more) (before : Option Char) (t : Text) :
    loneEquals? before (t ++ more) = (loneEquals? before t).map fun p => (p.1, p.2 ++ more) := by
  induction t generalizing before with
  | nil =>
    cases hcut : loneEquals? before more with
    | none =>
      rw [List.nil_append, hcut]
      rfl
    | some cut => exact absurd (eq_of_loneEquals hcut ▸ List.mem_append_right _ List.mem_cons_self) h
  | cons c t ih =>
    have hhead : ((t ++ more).head? != some '=') = (t.head? != some '=') := by
      cases t with
      | cons d t => rfl
      | nil =>
        refine (bne_iff_ne.mpr fun hmem => ?_ : (([] ++ more).head? != some '=') = true)
        exact h (List.mem_of_mem_head? hmem)
    rw [List.cons_append, loneEquals?, loneEquals?, hhead]
    split
    · rfl
    · rw [ih, Option.map_map, Option.map_map]
      rfl

/-- The right side of an assignment has no margin but the first, if nothing blank ends the statement. -/
theorem trim_right {left right : Text} (hright : Text.trim right ≠ [])
    (hlast : ∀ c ∈ (left ++ '=' :: right).getLast?, Text.isBlank c = false) :
    Text.trimStart right ≠ [] ∧ Text.trim right = Text.trimStart right ∧
      (Text.trimStart right).getLast? = (left ++ '=' :: right).getLast? := by
  have hstart : Text.trimStart right ≠ [] := by
    intro hnil
    rw [Text.trim, hnil] at hright
    exact hright rfl
  have hsame : (Text.trimStart right).getLast? = (left ++ '=' :: right).getLast? := by
    obtain ⟨first, hfirst⟩ := Text.suffix_trimStart right
    have htext : left ++ '=' :: right = left ++ '=' :: first ++ Text.trimStart right := by
      rw [List.append_assoc, List.cons_append, hfirst]
    rw [htext, List.getLast?_append_of_ne_nil _ hstart]
  exact ⟨hstart, Text.trimEnd_eq_self (hsame ▸ hlast), hsame⟩

/-- The expression of an assignment ends as the statement does. -/
theorem getLast?_expression {t : Text} (hlast : ∀ c ∈ t.getLast?, Text.isBlank c = false) {a : Assignment}
    (h : assignment? t = some a) : a.expression.getLast? = t.getLast? := by
  obtain ⟨left, right, hcut, -, hright, -, hne⟩ := eq_of_assignment h
  rw [hright] at hne ⊢
  rw [eq_of_loneEquals hcut] at hlast ⊢
  obtain ⟨-, htrim, hsame⟩ := trim_right hne hlast
  rw [htrim, hsame]

/-- **What is put behind an assignment** is put behind its expression, if it has no equality sign and ends with a
semicolon. -/
theorem assignment?_append {t body : Text} (hlast : ∀ c ∈ t.getLast?, Text.isBlank c = false) (hsign : '=' ∉ body)
    {a : Assignment} (h : assignment? t = some a) :
    assignment? (t ++ (body ++ [';'])) = some ⟨a.target, a.expression ++ (body ++ [';'])⟩ := by
  obtain ⟨left, right, hcut, htarget, hright, hname, hne⟩ := eq_of_assignment h
  rw [eq_of_loneEquals hcut] at hlast
  obtain ⟨hstart, htrim, -⟩ := trim_right (hright ▸ hne) hlast
  have hlonger : Text.trim (right ++ (body ++ [';'])) = a.expression ++ (body ++ [';']) := by
    rw [hright, htrim, Text.trim, Text.trimStart_append_of_ne_nil hstart, ← List.append_assoc, Text.trimEnd_concat,
      if_neg (by decide)]
  unfold assignment?
  rw [loneEquals?_append_of_not_mem (by simp [hsign]), hcut]
  dsimp only [Option.map_some]
  rw [hlonger, ← htarget, if_pos (by simp [hname])]

namespace Instruction

/-- Reads an assignment from a statement. -/
def ofStatement (statement : Text) : Except String Instruction :=
  if statement.isEmpty then .error "empty statement"
  else
    match assignment? statement with
    | some a => .ok (.assign (some (String.ofList a.target)) a.expression)
    | none => .ok (.assign none statement)

/-- Reads what is put out. -/
def ofExpression (expression : Text) : Except String Instruction :=
  if expression.isEmpty then .error "nothing to output" else .ok (.output expression)

/-- Reads a call from a statement. -/
def ofApplication (statement : Text) : Except String Instruction :=
  let (target, text) :=
    match assignment? statement with
    | some a => (some (String.ofList a.target), a.expression)
    | none => (none, statement)
  match Literal.call? text with
  | some c => .ok (.call target (String.ofList c.name) c.arguments)
  | none => .error "expected 'name(args)'"

end Instruction

/-- What is read from a statement: an assignment, or else an expression. -/
theorem Instruction.cases_ofStatement {t : Text} {i : Instruction} (h : ofStatement t = .ok i) :
    (∃ a, assignment? t = some a ∧ i = .assign (some (String.ofList a.target)) a.expression) ∨
      (assignment? t = none ∧ i = .assign none t) := by
  unfold ofStatement at h
  split at h
  · cases h
  · split at h
    · next a ha =>
      cases h
      exact .inl ⟨a, ha, rfl⟩
    · next ha =>
      cases h
      exact .inr ⟨ha, rfl⟩

/-- A semicolon that is left belongs to the expression of an assignment. -/
theorem exacting_ofStatement : Exacting Instruction.ofStatement where
  empty _ h := by cases h
  extended := by
    intro t body i htrim hsign hi h
    rcases Instruction.cases_ofStatement hi with ⟨a, ha, rfl⟩ | ⟨-, rfl⟩
    · have happend := assignment?_append (Text.edges_of_trim htrim).2 hsign ha
      rcases Instruction.cases_ofStatement h with ⟨a', ha', heq⟩ | ⟨hnone, -⟩
      · obtain rfl := Option.some.inj (happend.symm.trans ha')
        simp at heq
      · rw [hnone] at happend
        cases happend
    · rcases Instruction.cases_ofStatement h with ⟨a', -, heq⟩ | ⟨-, heq⟩
      · cases heq
      · simp at heq

theorem exacting_ofExpression : Exacting Instruction.ofExpression where
  empty _ h := by cases h
  extended := by
    intro t body i _ _ hi h
    unfold Instruction.ofExpression at hi h
    split at hi
    · cases hi
    · split at h
      · cases h
      · cases hi
        simp at h

/-- A call ends with a parenthesis. -/
theorem Literal.getLast?_of_call {t : Text} {c : Literal.Call} (h : call? t = some c) : t.getLast? = some ')' := by
  obtain ⟨-, blanks, inner, -, rfl, -⟩ := eq_of_call h
  rw [← List.append_assoc, ← List.cons_append, ← List.append_assoc, List.getLast?_concat]

/-- No call is read from a statement that ends with a semicolon. -/
theorem exacting_ofApplication : Exacting Instruction.ofApplication where
  empty _ h := by cases h
  extended := by
    intro t body i _ _ _ h
    have hend : (t ++ (body ++ [';'])).getLast? = some ';' := by rw [← List.append_assoc, List.getLast?_concat]
    have hnone : ∀ {u : Text}, u.getLast? = some ';' → Literal.call? u = none := by
      intro u hu
      by_contra hcall
      obtain ⟨c, hc⟩ := Option.ne_none_iff_exists'.mp hcall
      have hclose := Literal.getLast?_of_call hc
      rw [hu] at hclose
      cases hclose
    unfold Instruction.ofApplication at h
    cases ha : assignment? (t ++ (body ++ [';'])) with
    | some a =>
      have hedge : ∀ c ∈ (t ++ (body ++ [';'])).getLast?, Text.isBlank c = false := by
        intro c hc
        rw [hend] at hc
        cases hc
        rfl
      rw [ha] at h
      dsimp only at h
      rw [hnone ((getLast?_expression hedge ha).trans hend)] at h
      cases h
    | none =>
      rw [ha] at h
      dsimp only at h
      rw [hnone hend] at h
      cases h

/-! ### Keywords -/

/-- Only letters have another form in lower case. -/
theorem Text.toLower_eq_self {c : Char} (h : isNamePart c = false) : c.toLower = c := by
  refine dif_neg fun hupper => ?_
  have hpart : c.isUpper = true := decide_eq_true hupper
  simp [isNamePart, Char.isAlphanum, Char.isAlpha, hpart] at h

theorem Text.isNamePart_of_isTerminating {c : Char} (h : isTerminating c = true) : isNamePart c = false := by
  rcases isTerminating_iff.mp h with rfl | h
  · rfl
  · exact isNamePart_of_isBlank h

section Keywords

variable {keyword u v : Text}

/-- Semicolons and blanks are no part of a keyword. -/
theorem afterIgnoringCase?_append (hkeyword : ∀ b ∈ keyword, Text.isNamePart b = true)
    (hv : ∀ c ∈ v, Text.isTerminating c = true) (u : Text) :
    afterIgnoringCase? keyword (u ++ v) = (afterIgnoringCase? keyword u).map (· ++ v) := by
  induction keyword generalizing u with
  | nil => rfl
  | cons b keyword ih =>
    have hrest := ih fun d hd => hkeyword d (List.mem_cons_of_mem b hd)
    cases u with
    | nil =>
      cases v with
      | nil => rfl
      | cons c v =>
        have hc := Text.isNamePart_of_isTerminating (hv c List.mem_cons_self)
        refine if_neg ?_
        rw [Text.toLower_eq_self hc]
        rintro rfl
        rw [hkeyword b List.mem_cons_self] at hc
        cases hc
    | cons d u =>
      rw [List.cons_append, afterIgnoringCase?, afterIgnoringCase?]
      split
      · exact hrest u
      · rfl

/-- A word ends with the text, and in front of a semicolon or a blank. -/
theorem atWordEnd_append (hv : ∀ c ∈ v, Text.isTerminating c = true) (u : Text) : atWordEnd (u ++ v) = atWordEnd u := by
  cases u with
  | cons d u => rfl
  | nil =>
    cases v with
    | nil => rfl
    | cons c v =>
      have hc : Text.isWord c = false := by
        rcases Text.isTerminating_iff.mp (hv c List.mem_cons_self) with rfl | h
        · decide
        · exact Text.isWord_of_isBlank h
      simp [atWordEnd, hc]

/-- What follows a keyword that is a whole word. -/
def afterWord? (keyword t : Text) : Option Text :=
  (afterIgnoringCase? keyword t).bind fun rest => if atWordEnd rest then some rest else none

/-- What follows a colon with which a text begins, if its margin does not count. -/
def behindColon? (t : Text) : Option Text :=
  match Text.trimStart t with
  | ':' :: rest => some (Text.trimStart rest)
  | _ => none

theorem behindColon?_of_colon {t rest : Text} (h : Text.trimStart t = ':' :: rest) :
    behindColon? t = some (Text.trimStart rest) := by
  simp only [behindColon?, h]

theorem behindColon?_eq_none {t : Text} (h : ∀ rest, Text.trimStart t ≠ ':' :: rest) : behindColon? t = none := by
  unfold behindColon?
  split
  · next rest heq => exact absurd heq (h rest)
  · rfl

theorem afterColon_eq (t : Text) : afterColon t = (behindColon? t).getD (Text.trimStart t) := by
  unfold afterColon
  split
  · next heq => rw [behindColon?_of_colon heq, Option.getD_some]
  · next hno => rw [behindColon?_eq_none hno, Option.getD_none]

/-- A keyword is found as a word, or else by its first letter. -/
theorem afterKeyword?_eq (keyword t : Text) :
    afterKeyword? keyword t =
      ((afterWord? keyword t).map afterColon).or ((afterIgnoringCase? (keyword.take 1) t).bind behindColon?) := by
  unfold afterKeyword?
  dsimp only
  rw [← afterWord?]
  cases afterWord? keyword t with
  | some rest => rfl
  | none =>
    cases afterIgnoringCase? (keyword.take 1) t with
    | none => rfl
    | some rest =>
      rw [Option.map_none, Option.none_or, Option.bind_some, Option.map_some]
      dsimp only
      split
      · next heq => rw [behindColon?_of_colon (Option.some.inj heq)]
      · next hno => rw [behindColon?_eq_none fun rest' heq => hno rest' (congrArg some heq)]

/-- A word is found without regard to what ends the statement. -/
theorem afterWord?_append (hkeyword : ∀ b ∈ keyword, Text.isNamePart b = true)
    (hv : ∀ c ∈ v, Text.isTerminating c = true) (u : Text) :
    afterWord? keyword (u ++ v) = (afterWord? keyword u).map (· ++ v) := by
  unfold afterWord?
  rw [afterIgnoringCase?_append hkeyword hv]
  cases afterIgnoringCase? keyword u with
  | none => rfl
  | some rest =>
    simp only [Option.map_some, Option.bind_some, atWordEnd_append hv]
    split <;> rfl

/-- So is a colon: none begins what is made of semicolons and blanks. -/
theorem behindColon?_append (hv : ∀ c ∈ v, Text.isTerminating c = true) (u : Text) :
    (behindColon? (u ++ v)).map Text.trimStart = (behindColon? u).map fun rest => Text.trimStart (rest ++ v) := by
  cases hu : Text.trimStart u with
  | nil =>
    have hno : ∀ rest, Text.trimStart (u ++ v) ≠ ':' :: rest := by
      rw [Text.trimStart_append_of_eq_nil hu]
      intro rest heq
      have hcolon : ':' ∈ v := (Text.suffix_trimStart v).subset (heq ▸ List.mem_cons_self)
      exact absurd (hv ':' hcolon) (by decide)
    have hnone : behindColon? u = none := behindColon?_eq_none fun rest heq => List.cons_ne_nil _ _ (heq.symm.trans hu)
    rw [behindColon?_eq_none hno, hnone, Option.map_none, Option.map_none]
  | cons c rest =>
    have huv : Text.trimStart (u ++ v) = c :: (rest ++ v) := by
      rw [Text.trimStart_append_of_ne_nil (hu ▸ List.cons_ne_nil c rest), hu, List.cons_append]
    by_cases hc : c = ':'
    · subst hc
      rw [behindColon?_of_colon hu, behindColon?_of_colon huv, Option.map_some, Option.map_some,
        Text.trimStart_trimStart, Text.trimStart_trimStart_append]
    · have hno : ∀ t rest', Text.trimStart t = c :: rest' → behindColon? t = none := fun t rest' ht =>
        behindColon?_eq_none fun behind heq => hc (List.cons.inj (ht.symm.trans heq)).1
      rw [hno u rest hu, hno (u ++ v) (rest ++ v) huv, Option.map_none, Option.map_none]

/-- Where a colon may stand or not, the rest of the text is the same but for its margin. -/
theorem trimStart_behindColon_append (hv : ∀ c ∈ v, Text.isTerminating c = true) {r s : Text}
    (h : Text.trimStart r = Text.trimStart (s ++ v)) :
    Text.trimStart ((behindColon? (u ++ v)).getD r) = Text.trimStart ((behindColon? u).getD s ++ v) := by
  have hcolon := behindColon?_append hv u
  cases hu : behindColon? u with
  | none =>
    rw [hu, Option.map_none, Option.map_eq_none_iff] at hcolon
    rw [hcolon]
    exact h
  | some rest =>
    rw [hu, Option.map_some] at hcolon
    obtain ⟨rest', hrest', hsame⟩ := Option.map_eq_some_iff.mp hcolon
    rw [hrest']
    exact hsame

/-- **A keyword is found** without regard to what ends the statement. -/
theorem trimStart_keyword_append (hkeyword : ∀ b ∈ keyword, Text.isNamePart b = true)
    (hv : ∀ c ∈ v, Text.isTerminating c = true) (u : Text) :
    Text.trimStart ((afterKeyword? keyword (u ++ v)).getD (u ++ v)) =
      Text.trimStart ((afterKeyword? keyword u).getD u ++ v) := by
  have hletter : ∀ b ∈ keyword.take 1, Text.isNamePart b = true := fun b hb => hkeyword b (List.mem_of_mem_take hb)
  rw [afterKeyword?_eq, afterKeyword?_eq, afterWord?_append hkeyword hv, afterIgnoringCase?_append hletter hv]
  cases afterWord? keyword u with
  | some rest =>
    show Text.trimStart (afterColon (rest ++ v)) = Text.trimStart (afterColon rest ++ v)
    rw [afterColon_eq, afterColon_eq]
    refine trimStart_behindColon_append hv ?_
    rw [Text.trimStart_trimStart, Text.trimStart_trimStart_append]
  | none =>
    cases afterIgnoringCase? (keyword.take 1) u with
    | none => rfl
    | some rest => exact trimStart_behindColon_append hv rfl

theorem suffix_of_behindColon {t rest : Text} (h : behindColon? t = some rest) : rest <:+ t := by
  unfold behindColon? at h
  split at h
  · next behind heq =>
    cases h
    have hbehind : ':' :: behind <:+ t := heq ▸ Text.suffix_trimStart t
    exact (Text.suffix_trimStart behind).trans ((List.suffix_cons ':' behind).trans hbehind)
  · cases h

/-- What follows a keyword is the end of the text, and without a keyword the whole text is. -/
theorem suffix_keyword (keyword t : Text) : (afterKeyword? keyword t).getD t <:+ t := by
  rw [afterKeyword?_eq]
  cases hword : afterWord? keyword t with
  | some rest =>
    obtain ⟨behind, hbehind, hend⟩ := Option.bind_eq_some_iff.mp hword
    obtain ⟨first, rfl⟩ := eq_of_afterIgnoringCase hbehind
    split at hend
    · cases hend
      refine List.IsSuffix.trans ?_ (List.suffix_append first rest)
      show afterColon rest <:+ rest
      rw [afterColon_eq]
      cases hcolon : behindColon? rest with
      | none => exact Text.suffix_trimStart rest
      | some _ => exact suffix_of_behindColon hcolon
    · cases hend
  | none =>
    rw [Option.map_none, Option.none_or]
    cases hletter : (afterIgnoringCase? (keyword.take 1) t).bind behindColon? with
    | none => exact List.suffix_refl t
    | some rest =>
      obtain ⟨behind, hbehind, hcolon⟩ := Option.bind_eq_some_iff.mp hletter
      obtain ⟨first, rfl⟩ := eq_of_afterIgnoringCase hbehind
      exact (suffix_of_behindColon hcolon).trans (List.suffix_append first behind)

/-- What is left of a text without its first margin and the keyword it may begin with. -/
def behindKeyword (keyword t : Text) : Text :=
  Text.trimStart ((afterKeyword? keyword (Text.trimStart t)).getD (Text.trimStart t))

theorem trimStart_behindKeyword (keyword t : Text) :
    Text.trimStart (behindKeyword keyword t) = behindKeyword keyword t :=
  Text.trimStart_trimStart _

theorem suffix_behindKeyword (keyword t : Text) : behindKeyword keyword t <:+ t :=
  (Text.suffix_trimStart _).trans ((suffix_keyword keyword _).trans (Text.suffix_trimStart t))

/-- What ends a statement stays behind it when the keyword is taken off. -/
theorem behindKeyword_append (hkeyword : ∀ b ∈ keyword, Text.isNamePart b = true)
    (hv : ∀ c ∈ v, Text.isTerminating c = true) (hne : behindKeyword keyword u ≠ []) :
    behindKeyword keyword (u ++ v) = behindKeyword keyword u ++ v := by
  have hu : Text.trimStart u ≠ [] := by
    intro hnil
    have hsuffix := suffix_keyword keyword []
    rw [behindKeyword, hnil, List.suffix_nil.mp hsuffix] at hne
    exact hne rfl
  rw [behindKeyword, Text.trimStart_append_of_ne_nil hu, trimStart_keyword_append hkeyword hv,
    Text.trimStart_append_of_ne_nil hne, behindKeyword]

end Keywords

/-! ### Labels -/

/-- Margins make no difference to a statement. -/
theorem withoutTerminator_trim (t : Text) : withoutTerminator (Text.trim t) = Text.chopped (Text.trimStart t) := by
  rw [withoutTerminator, Text.trim_trim]
  rfl

/-- The last margin of a label may be taken off before the keyword is looked for, or with the semicolons. -/
theorem withoutTerminator_keyword {keyword : Text} (hkeyword : ∀ b ∈ keyword, Text.isNamePart b = true) (label : Text) :
    withoutTerminator (withoutKeyword keyword (Text.trim label)) = Text.chopped (behindKeyword keyword label) := by
  obtain ⟨m, hm, hblank⟩ := Text.exists_blanks_trimEnd (Text.trimStart label)
  have hmargin : ∀ c ∈ m, Text.isTerminating c = true := fun c hc => by
    rw [Text.isTerminating, hblank c hc, Bool.or_true]
  have hcut : ∀ t : Text, Text.chopped (Text.trimStart (t ++ m)) = Text.chopped (Text.trimStart t) := by
    intro t
    rw [← withoutTerminator_trim, Text.trim_append_blanks hblank, withoutTerminator_trim]
  rw [behindKeyword, hm, trimStart_keyword_append hkeyword hmargin, hcut, withoutKeyword, withoutTerminator_trim]
  rfl

/-- The same where a statement is the end of a label. -/
theorem Exacting.label_eq_ok_iff {read : Text → Except String Instruction} (hread : Exacting read) {part : Text → Text}
    {label w : Text} (hstart : Text.trimStart (part label) = part label) (hsuffix : part label <:+ label)
    (happend : part label ≠ [] → part (label ++ w) = part label ++ w) (hw : ∀ c ∈ w, Text.isTerminating c = true)
    {i : Instruction} (hi : read (Text.chopped (part label)) = .ok i) :
    read (Text.chopped (part (label ++ w))) = .ok i ↔ Text.Contiguous label w := by
  have hne : part label ≠ [] := by
    intro hnil
    rw [hnil] at hi
    exact hread.empty i hi
  obtain ⟨first, hfirst⟩ := hsuffix
  rw [happend hne, hread.eq_ok_iff hstart hw hi, ← Text.contiguous_append hne hstart first w, hfirst]

namespace Instruction

theorem readAssignment_eq (t : Text) : readAssignment t = ofStatement (withoutTerminator t) := by
  unfold readAssignment ofStatement
  generalize withoutTerminator t = statement
  rfl

theorem readOutput_eq (t : Text) :
    readOutput t = ofExpression (withoutTerminator (withoutKeyword "output".toList t)) := by
  unfold readOutput ofExpression
  generalize withoutTerminator (withoutKeyword "output".toList t) = expression
  rfl

theorem readCall_eq (t : Text) : readCall t = ofApplication (withoutTerminator t) := by
  unfold readCall ofApplication
  generalize withoutTerminator t = statement
  rfl

theorem ofLabel_assignment_chopped (label : Text) :
    ofLabel .assignment label = ofStatement (Text.chopped (Text.trimStart label)) := by
  rw [ofLabel_assignment, readAssignment_eq, withoutTerminator_trim]

theorem isNamePart_of_mem_output : ∀ b ∈ "output".toList, Text.isNamePart b = true := List.all_eq_true.mp rfl

theorem ofLabel_output_chopped (label : Text) :
    ofLabel .output label = ofExpression (Text.chopped (behindKeyword "output".toList label)) := by
  rw [ofLabel_output, readOutput_eq, withoutTerminator_keyword isNamePart_of_mem_output]

theorem ofLabel_functionCall_chopped (label : Text) :
    ofLabel .functionCall label = ofApplication (Text.chopped (Text.trimStart label)) := by
  rw [ofLabel_functionCall, readCall_eq, withoutTerminator_trim]

end Instruction

/-- **Semicolons behind a statement.**  Semicolons and blanks can be put behind the label of an assignment, an output or a
call, and what is read is the same, if and only if no blanks alone stand between one of these semicolons and the
semicolon before it. -/
theorem Block.instruction_terminated {b : Block} (hkind : b.kind ∈ [.assignment, .output, .functionCall])
    {i : Instruction} (hi : b.instruction = .ok i) {w : String} (hw : ∀ c ∈ w.toList, c = ';' ∨ Text.isBlank c) :
    ({ b with label := b.label ++ w } : Block).instruction = .ok i ↔ Text.Contiguous b.label.toList w.toList := by
  have hterminating : ∀ c ∈ w.toList, Text.isTerminating c = true := fun c hc => Text.isTerminating_iff.mpr (hw c hc)
  rw [Block.instruction_eq_ok_iff] at hi ⊢
  rw [String.toList_append]
  simp only [List.mem_cons, List.not_mem_nil, or_false] at hkind
  rcases hkind with hkind | hkind | hkind
  · rw [hkind, Instruction.ofLabel_assignment_chopped] at hi ⊢
    exact exacting_ofStatement.label_eq_ok_iff (Text.trimStart_trimStart _) (Text.suffix_trimStart _)
      (Text.trimStart_append_of_ne_nil · _) hterminating hi
  · rw [hkind, Instruction.ofLabel_output_chopped] at hi ⊢
    exact exacting_ofExpression.label_eq_ok_iff (trimStart_behindKeyword _ _) (suffix_behindKeyword _ _)
      (behindKeyword_append Instruction.isNamePart_of_mem_output hterminating) hterminating hi
  · rw [hkind, Instruction.ofLabel_functionCall_chopped] at hi ⊢
    exact exacting_ofApplication.label_eq_ok_iff (Text.trimStart_trimStart _) (Text.suffix_trimStart _)
      (Text.trimStart_append_of_ne_nil · _) hterminating hi

/-- A call with a semicolon behind it, and a run of semicolons behind that one. -/
theorem Block.instruction_terminated_run :
    BlockKind.functionCall ∈ [BlockKind.assignment, .output, .functionCall] ∧
      (⟨1, .functionCall, "r = f(1) ;"⟩ : Block).instruction = .ok (.call (some "r") "f" ["1".toList]) ∧
      (∀ c ∈ ";;\t ".toList, c = ';' ∨ Text.isBlank c) ∧
      Text.Contiguous "r = f(1) ;".toList ";;\t ".toList ∧
      (⟨1, .functionCall, "r = f(1) ;" ++ ";;\t "⟩ : Block).instruction = .ok (.call (some "r") "f" ["1".toList]) := by
  have hkind : BlockKind.functionCall ∈ [BlockKind.assignment, .output, .functionCall] := by decide
  have hread : (⟨1, .functionCall, "r = f(1) ;"⟩ : Block).instruction = .ok (.call (some "r") "f" ["1".toList]) := by
    decide +kernel
  have hblank : ∀ c ∈ ";;\t ".toList, c = ';' ∨ Text.isBlank c := fun c hc =>
    Text.isTerminating_iff.mp (List.all_eq_true.mp rfl c hc)
  have hrun : Text.Contiguous "r = f(1) ;".toList ";;\t ".toList := by decide
  exact ⟨hkind, hread, hblank, hrun,
    (Block.instruction_terminated (b := ⟨1, .functionCall, "r = f(1) ;"⟩) hkind hread hblank).mpr hrun⟩

/-- Semicolons with a blank between them are not all taken off: the first one becomes a part of the expression of an
assignment or of an output, and behind a call it makes a label that cannot be read. -/
theorem Block.instruction_terminated_apart :
    (∀ c ∈ "; ;".toList, c = ';' ∨ Text.isBlank c) ∧
      (⟨1, .assignment, "x = 1"⟩ : Block).instruction = .ok (.assign (some "x") "1".toList) ∧
      (⟨1, .assignment, "x = 1" ++ "; ;"⟩ : Block).instruction = .ok (.assign (some "x") "1;".toList) ∧
      (⟨2, .output, "O: x"⟩ : Block).instruction = .ok (.output "x".toList) ∧
      (⟨2, .output, "O: x" ++ "; ;"⟩ : Block).instruction = .ok (.output "x;".toList) ∧
      (⟨3, .functionCall, "f(1)"⟩ : Block).instruction = .ok (.call none "f" ["1".toList]) ∧
      (⟨3, .functionCall, "f(1)" ++ "; ;"⟩ : Block).instruction =
        .error (.invalidLabel .functionCall "f(1); ;" "expected 'name(args)'") := by
  refine ⟨fun c hc => Text.isTerminating_iff.mp (List.all_eq_true.mp rfl c hc), ?_, ?_, ?_, ?_, ?_, ?_⟩
  · decide +kernel
  · decide +kernel
  · decide +kernel
  · decide +kernel
  · decide +kernel
  · decide +kernel

end Flowchart
