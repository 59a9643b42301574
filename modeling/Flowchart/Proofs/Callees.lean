import Flowchart.Machine.Execution
import Flowchart.Proofs.Text.Passages

/-!
# The functions that a label calls

Functions are called by names in the labels of blocks.  A label in which a name does not stand, as a whole word, does
not call the function of that name, however it is read.

* `Expression.callees`, `Condition.callees`, `Instruction.callees` — the functions that may be called.
* `Literal.passage_of_argument`, `Connective.passages_of_split`, `passage_of_negated`, `Comparison.passages`,
  `passage_question` — what the readers of expressions and of conditions take out of a text.
* `passage_of_assignment`, `passage_withoutTerminator`, `passage_withoutKeyword`, `passage_loopHeader` — what the
  readers of labels take out of it.
* `Expression.applied_of_callees`, `Condition.applied_of_callees` — what is called is applied in the text.
* **`Block.mem_names_of_callees`** — and so it is one of the names of the label.
* `Environment.Agree` — environments that have the same variables and agree about some functions.
* `Expression.eval_congr`, `Condition.eval_congr`, **`Machine.execute_congr`** — a block does the same in two
  environments that agree about the functions named on its label.
-/

namespace Flowchart

open Text (Passage Applied)

/-! ### Functions that may be called -/

namespace Expression

mutual

/-- The functions that an expression calls. -/
def callees : Expression → List String
  | .call name arguments => name :: calleesOfAll arguments
  | _ => []

/-- The functions that expressions call. -/
def calleesOfAll : List Expression → List String
  | [] => []
  | e :: rest => callees e ++ calleesOfAll rest

end

theorem mem_calleesOfAll {name : String} {es : List Expression} (h : name ∈ calleesOfAll es) :
    ∃ e ∈ es, name ∈ e.callees := by
  induction es with
  | nil => cases h
  | cons e rest ih =>
    rw [calleesOfAll] at h
    rcases List.mem_append.mp h with h | h
    · exact ⟨e, List.mem_cons_self, h⟩
    · obtain ⟨e', he', hname⟩ := ih h
      exact ⟨e', List.mem_cons_of_mem e he', hname⟩

end Expression

/-- The functions that a condition may call. -/
def Condition.callees : Condition → List String
  | both left right => left.callees ++ right.callees
  | either left right => left.callees ++ right.callees
  | negation operand => operand.callees
  | compared _ left right => left.callees ++ right.callees
  | holds value => value.callees

/-- The functions that a clause of a counting loop calls. -/
def calleesOfClause (clause : Text) : List String :=
  match assignment? clause with
  | some a => (Expression.read a.expression).callees
  | none => (Expression.read clause).callees

/-- The functions that an instruction may call. -/
def Instruction.callees : Instruction → List String
  | assign _ expression | output expression => (Expression.read expression).callees
  | choose condition | whileLoop condition | doWhile condition => (Condition.read condition).callees
  | forLoop init condition increment =>
    calleesOfClause init ++ (Condition.read condition).callees ++ calleesOfClause increment
  | call _ function arguments => function :: Expression.calleesOfAll (arguments.map Expression.read)
  | _ => []

/-! ### Passages of expressions -/

section Expressions

variable {t u : Text}

/-- A call is a name, blanks, and parentheses that enclose the arguments. -/
theorem Literal.eq_of_call {c : Literal.Call} (h : Literal.call? t = some c) :
    Text.isName c.name = true ∧
      ∃ blanks inner, (∀ b ∈ blanks, Text.isBlank b = true) ∧ t = c.name ++ (blanks ++ '(' :: (inner ++ [')'])) ∧
        Text.enclosed? ('(' :: (inner ++ [')'])) = some inner ∧ c.arguments = Literal.arguments (Text.trim inner) := by
  unfold Literal.call? at h
  dsimp only at h
  split at h
  · next hname =>
    obtain ⟨inner, henclosed, rfl⟩ := Option.map_eq_some_iff.mp h
    obtain ⟨blanks, hblanks, hall⟩ := Text.exists_blanks_trimEnd (t.takeWhile (· != '('))
    refine ⟨hname, blanks, inner, hall, ?_, ?_, rfl⟩
    · rw [← List.append_assoc, ← hblanks, ← Text.eq_of_enclosed henclosed, List.takeWhile_append_dropWhile]
    · rwa [← Text.eq_of_enclosed henclosed]
  · cases h

/-- A call begins with the name of the function, and a parenthesis follows it, perhaps behind blanks. -/
theorem Literal.applied_of_call {c : Literal.Call} (h : Literal.call? t = some c) : Applied c.name t := by
  obtain ⟨hname, blanks, inner, hall, ht, -⟩ := Literal.eq_of_call h
  cases blanks with
  | nil => exact ⟨hname, '(', inner ++ [')'], by decide, ht ▸ .refl t⟩
  | cons b blanks =>
    have hb := Text.isWord_of_isBlank (hall b List.mem_cons_self)
    exact ⟨hname, b, blanks ++ '(' :: (inner ++ [')']), hb, ht ▸ .refl t⟩

theorem Literal.passage_of_argument {c : Literal.Call} (h : Literal.call? t = some c) (hu : u ∈ c.arguments) :
    Passage u t := by
  obtain ⟨-, blanks, inner, -, rfl, -, harguments⟩ := Literal.eq_of_call h
  have hinner : Passage inner (c.name ++ (blanks ++ '(' :: (inner ++ [')']))) := by
    rw [← List.append_assoc]
    exact .behind (by decide) _ inner [')']
  rw [harguments] at hu
  unfold Literal.arguments at hu
  split at hu
  · cases hu
  · obtain ⟨part, hpart, rfl⟩ := List.mem_map.mp hu
    exact (Text.passage_trim part).trans
      ((Text.passage_of_mem_splitTop (by decide) hpart).trans ((Text.passage_trim inner).trans hinner))

/-- **What an expression calls is applied in its text**, by induction on the length of the text: the arguments of a call
are shorter passages of it. -/
theorem Expression.applied_of_callees {name : String} (h : name ∈ (Expression.read t).callees) :
    Applied name.toList t := by
  induction hlength : t.length using Nat.strongRecOn generalizing t with
  | ind n ih =>
    rw [Expression.read_eq] at h
    split at h
    · cases h
    · split at h
      · next c hc =>
        refine Applied.trans ?_ (Text.passage_trim t)
        rw [callees] at h
        rcases List.mem_cons.mp h with rfl | h
        · rw [String.toList_ofList]
          exact Literal.applied_of_call hc
        · obtain ⟨e, he, hname⟩ := mem_calleesOfAll h
          obtain ⟨a, ha, rfl⟩ := List.mem_map.mp he
          have hshort : a.length < n := by
            have hless := Literal.length_lt_of_mem_arguments hc ha
            have htrim := Text.length_trim_le t
            omega
          exact (ih a.length hshort hname rfl).trans (Literal.passage_of_argument hc ha)
      · unfold readOperand at h
        split at h
        · cases h
        · split at h <;> cases h

end Expressions

/-! ### Passages of conditions -/

section Conditions

variable {t u : Text}

/-- What follows a connective stands behind a character from which no word goes over into it. -/
theorem Connective.eq_of_after {k : Connective} {before : Option Char} (h : k.after? before t = some u) :
    ∃ first c, t = first ++ c :: u ∧ ∀ d ∈ u.head?, Text.isNamePart d = true → Text.isWord c = false := by
  unfold after? at h
  split at h
  · next rest hrest =>
    cases h
    rw [Text.after?_eq_some_iff.mp hrest]
    exact ⟨[k.single], k.single, by cases k <;> rfl, fun _ _ _ => by cases k <;> decide⟩
  · split at h
    · next rest hrest =>
      cases h
      rw [Text.after?_eq_some_iff.mp hrest]
      exact ⟨[], k.single, rfl, fun _ _ _ => by cases k <;> decide⟩
    · split at h
      · next rest hrest =>
        split at h
        · next hboundary =>
          cases h
          have hhead : ∀ d ∈ u.head?, Text.isNamePart d = true → False := by
            intro d hd hpart
            have hrest := (Bool.and_eq_true_iff.mp hboundary).2
            rw [isBoundary, Option.mem_def.mp hd, Option.any_some, hpart] at hrest
            cases hrest
          rw [Text.after?_eq_some_iff.mp hrest]
          cases k with
          | and => exact ⟨['A', 'N'], 'D', rfl, fun d hd hpart => (hhead d hd hpart).elim⟩
          | or => exact ⟨['O'], 'R', rfl, fun d hd hpart => (hhead d hd hpart).elim⟩
        · cases h
      · cases h

/-- A cut leaves the beginning of the text on its left side, and what follows the connective on its right side. -/
theorem Connective.eq_of_splitFrom {k : Connective} {before : Option Char} {n : Nesting} {left right : Text}
    (h : k.splitFrom? before n t = some (left, right)) :
    left <+: t ∧ ∃ first c, t = first ++ c :: right ∧
      ∀ d ∈ right.head?, Text.isNamePart d = true → Text.isWord c = false := by
  induction t generalizing before n left with
  | nil => cases h
  | cons b t ih =>
    rw [splitFrom?] at h
    split at h
    · next rest hrest =>
      cases h
      split at hrest
      · cases hrest
      · exact ⟨List.nil_prefix, eq_of_after hrest⟩
    · obtain ⟨⟨l, r⟩, hcut, heq⟩ := Option.map_eq_some_iff.mp h
      cases heq
      obtain ⟨hleft, first, c, rfl, hloose⟩ := ih hcut
      exact ⟨List.cons_prefix_cons.mpr ⟨rfl, hleft⟩, b :: first, c, rfl, hloose⟩

theorem Connective.passages_of_split {k : Connective} {left right : Text} (h : k.split? t = some (left, right)) :
    Passage left t ∧ Passage right t := by
  obtain ⟨hleft, first, c, ht, hloose⟩ := eq_of_splitFrom h
  exact ⟨.initial hleft, ht ▸ .ending hloose first⟩

theorem passage_of_negated (h : negated? t = some u) : Passage u t := by
  unfold negated? at h
  dsimp only at h
  split at h
  · next operand hword =>
    cases h
    split at hword
    · next c rest hafter =>
      split at hword
      · cases hword
      · next hpart =>
        cases hword
        rw [Text.after?_eq_some_iff.mp hafter]
        refine (Text.passage_trimStart _).trans (.ending (fun d hd hd' => ?_) ['N', 'O'])
        cases hd
        exact absurd hd' hpart
    · cases hword
  · split at h
    · cases h
    · next rest _ _ =>
      cases h
      exact (Text.passage_trimStart rest).trans (.ending (fun _ _ _ => by decide) [])
    · cases h

theorem passage_question (t : Text) : Passage (Condition.question t) t := by
  unfold Condition.question
  dsimp only
  split
  · exact (Text.passage_trim _).trans ((Passage.initial (List.dropLast_prefix _)).trans (Text.passage_trim t))
  · exact Text.passage_trim t

/-- The right side of a comparison stands behind its sign, which no word goes over. -/
theorem eq_of_comparatorAt {comparator : Comparator} (h : comparatorAt? t = some (comparator, u)) :
    ∃ first c rest, t = first ++ c :: rest ∧ Text.isWord c = false ∧ u = Text.trimStart rest := by
  obtain ⟨sign, hsign, hside⟩ := List.exists_of_findSome?_eq_some h
  obtain ⟨side, hside, heq⟩ := Option.map_eq_some_iff.mp hside
  obtain ⟨rest, hafter, hrest⟩ := Option.bind_eq_some_iff.mp hside
  cases heq
  have hu : u = Text.trimStart rest := by
    unfold rightSide? at hrest
    dsimp only at hrest
    split at hrest
    · cases hrest
    · exact (Option.some.inj hrest).symm
  have hlast : ∀ sign ∈ Comparator.signs, ∃ first c, sign.1 = first ++ [c] ∧ Text.isWord c = false := by
    intro sign hsign
    simp only [Comparator.signs, List.mem_cons, List.not_mem_nil, or_false] at hsign
    rcases hsign with rfl | rfl | rfl | rfl | rfl | rfl | rfl
    all_goals first
      | exact ⟨[], _, rfl, by decide⟩
      | exact ⟨[_], _, rfl, by decide⟩
  obtain ⟨first, c, hfirst, hc⟩ := hlast sign hsign
  refine ⟨first, c, rest, ?_, hc, hu⟩
  rw [Text.after?_eq_some_iff.mp hafter, hfirst, List.append_assoc]
  rfl

/-- A comparison has the beginning of the text on its left side, and what follows its sign on its right side. -/
theorem eq_of_comparison {c : Comparison} (h : comparison? t = some c) :
    c.left <+: t ∧ ∃ first d rest, t = first ++ d :: rest ∧ Text.isWord d = false ∧ c.right = Text.trimStart rest := by
  induction t generalizing c with
  | nil => cases h
  | cons b t ih =>
    rw [comparison?] at h
    split at h
    · cases h
    · split at h
      · next comparator right hsign =>
        cases h
        obtain ⟨first, d, rest, heq, hd, hright⟩ := eq_of_comparatorAt hsign
        refine ⟨⟨t, rfl⟩, b :: (t.takeWhile Text.isBlank ++ first), d, rest, ?_, hd, hright⟩
        have ht : t = t.takeWhile Text.isBlank ++ (first ++ d :: rest) := by
          rw [← heq]
          exact List.takeWhile_append_dropWhile.symm
        rw [List.cons_append, List.append_assoc, ← ht]
      · obtain ⟨shorter, hshorter, rfl⟩ := Option.map_eq_some_iff.mp h
        obtain ⟨hleft, first, d, rest, rfl, hd, hright⟩ := ih hshorter
        exact ⟨List.cons_prefix_cons.mpr ⟨rfl, hleft⟩, b :: first, d, rest, rfl, hd, hright⟩

theorem Comparison.passages {c : Comparison} (h : comparison? t = some c) : Passage c.left t ∧ Passage c.right t := by
  obtain ⟨hleft, first, d, rest, rfl, hd, hright⟩ := eq_of_comparison h
  refine ⟨.initial hleft, ?_⟩
  rw [hright]
  exact (Text.passage_trimStart rest).trans (.ending (fun _ _ _ => hd) first)

theorem Condition.applied_of_atom {name : String} (h : name ∈ (readAtom t).callees) : Applied name.toList t := by
  unfold readAtom at h
  split at h
  · next c hc =>
    obtain ⟨hleft, hright⟩ := Comparison.passages hc
    rcases List.mem_append.mp h with h | h
    · exact (Expression.applied_of_callees h).trans hleft
    · exact (Expression.applied_of_callees h).trans hright
  · exact Expression.applied_of_callees h

/-- **What a condition may call is applied in its text**, by induction along the reading of the text. -/
theorem Condition.applied_of_callees {name : String} (h : name ∈ (Condition.read t).callees) :
    Applied name.toList t := by
  suffices hquestion : Applied name.toList (question t) from hquestion.trans (passage_question t)
  induction t using Condition.read.induct with
  | case1 t left right hand ihleft ihright =>
    obtain ⟨hleft, hright⟩ := Connective.passages_of_split hand
    rw [Condition.read] at h
    split at h
    · next l r hcut =>
      cases hand.symm.trans hcut
      rcases List.mem_append.mp h with h | h
      · exact ((ihleft h).trans (passage_question left)).trans hleft
      · exact ((ihright h).trans (passage_question right)).trans hright
    · next hcut => cases hand.symm.trans hcut
  | case2 t hand left right hor ihleft ihright =>
    obtain ⟨hleft, hright⟩ := Connective.passages_of_split hor
    rw [Condition.read, hand, hor] at h
    rcases List.mem_append.mp h with h | h
    · exact ((ihleft h).trans (passage_question left)).trans hleft
    · exact ((ihright h).trans (passage_question right)).trans hright
  | case3 t hand hor operand hnot ih =>
    rw [Condition.read, hand, hor, hnot] at h
    exact ((ih h).trans (passage_question operand)).trans (passage_of_negated hnot)
  | case4 t hand hor hnot inner hin ih =>
    rw [Condition.read, hand, hor, hnot, hin] at h
    exact ((ih h).trans (passage_question inner)).trans (Text.passage_of_enclosed hin)
  | case5 t hand hor hnot hin =>
    rw [Condition.read, hand, hor, hnot, hin] at h
    exact applied_of_atom h

end Conditions

/-! ### Passages of labels -/

section Labels

variable {t u : Text}

theorem eq_of_loneEquals {before : Option Char} {left right : Text} (h : loneEquals? before t = some (left, right)) :
    t = left ++ '=' :: right := by
  induction t generalizing before left with
  | nil => cases h
  | cons c t ih =>
    rw [loneEquals?] at h
    split at h
    · next hsign =>
      cases h
      obtain ⟨⟨rfl, -⟩, -⟩ : (c = '=' ∧ _) ∧ _ := by simpa using hsign
      rfl
    · obtain ⟨⟨l, r⟩, hcut, heq⟩ := Option.map_eq_some_iff.mp h
      cases heq
      rw [ih hcut]
      rfl

/-- An assignment is cut at its equality sign, and its two sides are trimmed. -/
theorem eq_of_assignment {a : Assignment} (h : assignment? t = some a) :
    ∃ left right, loneEquals? none t = some (left, right) ∧ a.target = Text.trim left ∧ a.expression = Text.trim right ∧
      Text.isName a.target = true ∧ a.expression ≠ [] := by
  unfold assignment? at h
  split at h
  · next left right hcut =>
    dsimp only at h
    split at h
    · next hboth =>
      cases h
      rw [Bool.and_eq_true, Bool.not_eq_true', List.isEmpty_eq_false_iff] at hboth
      exact ⟨left, right, hcut, rfl, rfl, hboth⟩
    · cases h
  · cases h

theorem passage_of_assignment {a : Assignment} (h : assignment? t = some a) : Passage a.expression t := by
  obtain ⟨left, right, hcut, -, hright, -⟩ := eq_of_assignment h
  rw [hright, eq_of_loneEquals hcut]
  exact (Text.passage_trim right).trans (.ending (fun _ _ _ => by decide) left)

theorem passage_withoutTerminator (t : Text) : Passage (withoutTerminator t) t := by
  have hend : withoutEnd ';' (Text.trim t) <+: Text.trim t := by
    rw [← List.reverse_suffix]
    unfold withoutEnd
    rw [List.reverse_reverse]
    exact List.dropWhile_suffix _
  exact (Passage.initial (Text.prefix_trimEnd _)).trans ((Passage.initial hend).trans (Text.passage_trim t))

theorem eq_of_afterIgnoringCase {keyword : Text} (h : afterIgnoringCase? keyword t = some u) :
    ∃ first, t = first ++ u := by
  induction keyword generalizing t with
  | nil =>
    cases h
    exact ⟨[], rfl⟩
  | cons b keyword ih =>
    cases t with
    | nil => cases h
    | cons c t =>
      rw [afterIgnoringCase?] at h
      split at h
      · obtain ⟨first, rfl⟩ := ih h
        exact ⟨c :: first, rfl⟩
      · cases h

/-- What follows a whole word is a passage. -/
theorem passage_of_atWordEnd {first : Text} (h : atWordEnd u = true) : Passage u (first ++ u) := by
  refine .apart (fun d hd => ?_) first
  unfold atWordEnd at h
  rw [Option.mem_def.mp hd, Option.any_some, Bool.not_eq_true'] at h
  exact h

theorem passage_afterColon (t : Text) : Passage (afterColon t) t := by
  refine Passage.trans ?_ (Text.passage_trimStart t)
  unfold afterColon
  split
  · next rest heq =>
    rw [heq]
    exact (Text.passage_trimStart rest).trans (.ending (fun _ _ _ => by decide) [])
  · exact .refl _

theorem passage_of_afterKeyword {keyword : Text} (h : afterKeyword? keyword t = some u) : Passage u t := by
  unfold afterKeyword? at h
  dsimp only at h
  split at h
  · next rest hword =>
    cases h
    obtain ⟨behind, hbehind, hend⟩ := Option.bind_eq_some_iff.mp hword
    obtain ⟨first, rfl⟩ := eq_of_afterIgnoringCase hbehind
    split at hend
    · next hboundary =>
      cases hend
      exact (passage_afterColon rest).trans (passage_of_atWordEnd hboundary)
    · cases hend
  · split at h
    · next rest hletter =>
      cases h
      obtain ⟨behind, hbehind, hcolon⟩ := Option.map_eq_some_iff.mp hletter
      obtain ⟨first, rfl⟩ := eq_of_afterIgnoringCase hbehind
      have hpassage : Passage rest (first ++ behind.takeWhile Text.isBlank ++ ':' :: rest) :=
        .ending (fun _ _ _ => by decide) _
      rw [← hcolon, Text.trimStart, List.append_assoc, List.takeWhile_append_dropWhile] at hpassage
      exact (Text.passage_trimStart rest).trans hpassage
    · cases h

theorem passage_withoutKeyword (keyword t : Text) : Passage (withoutKeyword keyword t) t := by
  refine (Text.passage_trim _).trans ?_
  cases h : afterKeyword? keyword t with
  | none => exact .refl t
  | some rest => exact passage_of_afterKeyword h

theorem passage_loopHeader (t : Text) : Passage (loopHeader t) t := by
  unfold loopHeader
  dsimp only
  apply Passage.trans
  case h =>
    split
    · next inner hin => exact (Text.passage_trim inner).trans (Text.passage_of_enclosed hin)
    · exact .refl _
  case h' =>
    split
    · next rest hrest =>
      split
      · next hend =>
        refine (Text.passage_trim rest).trans ?_
        rw [Text.after?_eq_some_iff.mp hrest]
        exact passage_of_atWordEnd hend
      · exact Text.passage_trim t
    · exact Text.passage_trim t

theorem applied_of_clause {name : String} (h : name ∈ calleesOfClause t) : Applied name.toList t := by
  unfold calleesOfClause at h
  split at h
  · next a ha => exact (Expression.applied_of_callees h).trans (passage_of_assignment ha)
  · exact Expression.applied_of_callees h

namespace Instruction

variable {i : Instruction} {name : String}

theorem applied_of_readAssignment (hi : readAssignment t = .ok i) (h : name ∈ i.callees) : Applied name.toList t := by
  refine Applied.trans ?_ (passage_withoutTerminator t)
  unfold readAssignment at hi
  dsimp only at hi
  split at hi
  · cases hi
  · split at hi
    · next a ha =>
      cases hi
      exact (Expression.applied_of_callees h).trans (passage_of_assignment ha)
    · cases hi
      exact Expression.applied_of_callees h

theorem applied_of_readOutput (hi : readOutput t = .ok i) (h : name ∈ i.callees) : Applied name.toList t := by
  unfold readOutput at hi
  dsimp only at hi
  split at hi
  · cases hi
  · cases hi
    exact (Expression.applied_of_callees h).trans
      ((passage_withoutTerminator _).trans (passage_withoutKeyword _ t))

theorem applied_of_readForLoop (hi : readForLoop t = .ok i) (h : name ∈ i.callees) : Applied name.toList t := by
  unfold readForLoop at hi
  split at hi
  · next init condition increment hsplit =>
    cases hi
    have hpart : ∀ part ∈ [init, condition, increment], Passage (Text.trim part) t := by
      intro part hpart
      rw [← hsplit] at hpart
      exact (Text.passage_trim part).trans
        ((Text.passage_of_mem_splitTop (by decide) hpart).trans (passage_loopHeader t))
    rcases List.mem_append.mp h with h | h
    · rcases List.mem_append.mp h with h | h
      · exact (applied_of_clause h).trans (hpart init (by simp))
      · exact (Condition.applied_of_callees h).trans (hpart condition (by simp))
    · exact (applied_of_clause h).trans (hpart increment (by simp))
  · cases hi

theorem applied_of_readCall (hi : readCall t = .ok i) (h : name ∈ i.callees) : Applied name.toList t := by
  have hcall : ∀ {u : Text} {c : Literal.Call} {target : Option String}, Literal.call? u = some c → Passage u t →
      name ∈ (Instruction.call target (String.ofList c.name) c.arguments).callees → Applied name.toList t := by
    intro u c target hc hu hname
    refine Applied.trans ?_ hu
    rcases List.mem_cons.mp hname with rfl | hname
    · rw [String.toList_ofList]
      exact Literal.applied_of_call hc
    · obtain ⟨e, he, hname⟩ := Expression.mem_calleesOfAll hname
      obtain ⟨a, ha, rfl⟩ := List.mem_map.mp he
      exact (Expression.applied_of_callees hname).trans (Literal.passage_of_argument hc ha)
  unfold readCall at hi
  dsimp only at hi
  cases hassignment : assignment? (withoutTerminator t) with
  | none =>
    rw [hassignment] at hi
    dsimp only at hi
    split at hi
    · next c hc =>
      cases hi
      exact hcall hc (passage_withoutTerminator t) h
    · cases hi
  | some a =>
    rw [hassignment] at hi
    dsimp only at hi
    split at hi
    · next c hc =>
      cases hi
      exact hcall hc ((passage_of_assignment hassignment).trans (passage_withoutTerminator t)) h
    · cases hi

end Instruction

/-- **What a block may call is one of the names on its label.** -/
theorem Block.mem_names_of_callees {b : Block} {i : Instruction} {name : String} (hi : b.instruction = .ok i)
    (h : name ∈ i.callees) : name.toList ∈ Text.names b.label.toList := by
  have hread : Instruction.ofLabel b.kind b.label.toList = .ok i := by
    unfold Block.instruction at hi
    split at hi
    · next j hj =>
      cases hi
      exact hj
    · cases hi
  refine Text.mem_names_of_applied (Applied.trans ?_ (Text.passage_trim b.label.toList))
  have hcondition : ∀ {form : Text → Instruction} {t : Text}, (form t).callees = (Condition.read t).callees →
      Instruction.readCondition form t = .ok i → Applied name.toList t := by
    intro form t hform hi
    unfold Instruction.readCondition at hi
    split at hi
    · cases hi
    · cases hi
      rw [hform] at h
      exact Condition.applied_of_callees h
  unfold Instruction.ofLabel at hread
  dsimp only at hread
  split at hread
  · cases hread; cases h
  · cases hread; cases h
  · cases hread; cases h
  · exact Instruction.applied_of_readAssignment hread h
  · unfold Instruction.readInput at hread
    dsimp only at hread
    split at hread
    · cases hread
    · cases hread; cases h
  · exact Instruction.applied_of_readOutput hread h
  · exact hcondition rfl hread
  · exact hcondition rfl hread
  · exact hcondition rfl hread
  · exact Instruction.applied_of_readForLoop hread h
  · exact Instruction.applied_of_readCall hread h

end Labels

/-! ### Environments that agree -/

/-- Two environments have the same variables, and agree about the functions of some names. -/
structure Environment.Agree {σ : Type} (env env' : Environment σ) (names : List String) : Prop where
  lookup : env.lookup = env'.lookup
  call : ∀ name ∈ names, env.call name = env'.call name

section Agreement

variable {σ : Type} {env env' : Environment σ}

theorem Environment.Agree.mono {names names' : List String} (h : env.Agree env' names) (hsub : names' ⊆ names) :
    env.Agree env' names' where
  lookup := h.lookup
  call name hname := h.call name (hsub hname)

mutual

/-- An expression has the same value in environments that agree about what it calls. -/
theorem Expression.eval_congr : ∀ e : Expression, env.Agree env' e.callees → e.eval env = e.eval env'
  | .literal v, _ => by rw [eval, eval]
  | .call name arguments, h => by
    rw [eval, eval, evalAll_congr arguments (h.mono (List.subset_cons_self name _)), h.call name List.mem_cons_self]
  | .arithmetic source, h => by
    rw [eval, eval]
    unfold Environment.arithmeticValue
    rw [h.lookup]
  | .named name, h => by
    rw [eval, eval]
    unfold Environment.variableValue
    rw [h.lookup]
  | .unreadable source, _ => by rw [eval, eval]

theorem Expression.evalAll_congr :
    ∀ es : List Expression, env.Agree env' (calleesOfAll es) → evalAll env es = evalAll env' es
  | [], _ => by rw [evalAll, evalAll]
  | e :: rest, h => by
    rw [evalAll, evalAll, eval_congr e (h.mono (List.subset_append_left _ _)),
      evalAll_congr rest (h.mono (List.subset_append_right _ _))]

end

theorem evaluate_congr {t : Text} (h : env.Agree env' (Expression.read t).callees) :
    evaluate env t = evaluate env' t :=
  Expression.eval_congr (Expression.read t) h

theorem Condition.eval_congr {c : Condition} (h : env.Agree env' c.callees) : c.eval env = c.eval env' := by
  induction c with
  | both left right ihleft ihright | either left right ihleft ihright =>
    rw [eval, eval, ihleft (h.mono (List.subset_append_left _ _)), ihright (h.mono (List.subset_append_right _ _))]
  | negation operand ih => rw [eval, eval, ih h]
  | compared comparator left right =>
    rw [eval, eval, Expression.eval_congr left (h.mono (List.subset_append_left _ _)),
      Expression.eval_congr right (h.mono (List.subset_append_right _ _))]
  | holds value => rw [eval, eval, Expression.eval_congr value h]

end Agreement

namespace Machine

variable {env env' : Environment Machine}

theorem runClause_congr {clause : Text} (h : env.Agree env' (calleesOfClause clause)) :
    runClause env clause = runClause env' clause := by
  unfold calleesOfClause at h
  unfold runClause
  split
  · rfl
  · split
    · next a ha =>
      rw [ha] at h
      rw [evaluate_congr h]
    · next hnone =>
      rw [hnone] at h
      rw [evaluate_congr h]

theorem evaluateEach_congr {ts : List Text} (h : env.Agree env' (Expression.calleesOfAll (ts.map Expression.read))) :
    evaluateEach env ts = evaluateEach env' ts := by
  induction ts with
  | nil => rfl
  | cons t rest ih =>
    rw [evaluateEach, evaluateEach, evaluate_congr (h.mono (List.subset_append_left _ _)),
      ih (h.mono (List.subset_append_right _ _))]

/-- An instruction does the same in environments that agree about what it may call. -/
theorem perform_congr (g : Graph) (id : BlockId) {i : Instruction} (h : env.Agree env' i.callees) :
    perform env g id i = perform env' g id i := by
  have hcondition : ∀ {t : Text}, env.Agree env' (Condition.read t).callees →
      evaluateCondition env t = evaluateCondition env' t := Condition.eval_congr
  cases i with
  | start | finish | merge | input _ => rfl
  | assign target expression => rw [perform, perform, evaluate_congr h]
  | output expression => rw [perform, perform, evaluate_congr h]
  | choose condition | doWhile condition | whileLoop condition => rw [perform, perform, hcondition h]
  | forLoop init condition increment =>
    have hinit := runClause_congr (h.mono fun _ hname => List.mem_append_left _ (List.mem_append_left _ hname))
    have htest := hcondition (h.mono fun _ hname => List.mem_append_left _ (List.mem_append_right _ hname))
    have hincrement := runClause_congr (h.mono fun _ hname => List.mem_append_right _ hname)
    have hclause : ∀ again, runClause env (if again = true then increment else init) =
        runClause env' (if again = true then increment else init) := by
      intro again
      cases again with
      | true => exact hincrement
      | false => exact hinit
    rw [perform, perform]
    simp only [hclause, htest]
  | call target function arguments =>
    rw [perform, perform, evaluateEach_congr (h.mono (List.subset_cons_self function _)),
      h.call function List.mem_cons_self]

/-- **A block does the same in two environments** that have the same variables and agree about the functions that
are named on its label. -/
theorem execute_congr (g : Graph) {b : Block} (hlookup : env.lookup = env'.lookup)
    (hcall : ∀ name : String, name.toList ∈ Text.names b.label.toList → env.call name = env'.call name) :
    execute env g b = execute env' g b := by
  unfold execute
  cases hi : b.instruction with
  | error f => rfl
  | ok i => exact perform_congr g b.id ⟨hlookup, fun name hname => hcall name (Block.mem_names_of_callees hi hname)⟩

end Machine

end Flowchart
