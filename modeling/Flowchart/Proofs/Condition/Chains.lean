import Flowchart.Proofs.Condition.Scanning

/-!
# Chains of connectives

Operands may be joined by any number of connectives of both sorts.  The reader cuts such a chain at its first *and*,
goes through the part before it for an *or*, and through the part behind it for everything again.  What comes of it
is a conjunction of disjunctions: the *and*s of a chain cut it into groups, and the *or*s join the operands of a group.

* `Joint`, `Chain` — a connective with the blanks around it, and operands joined by such.
* `Chain.groups` — the operands between the *and*s of a chain.
* `Action.allOf`, `Action.anyOf` — conjunctions and disjunctions from left to right, as far as they are needed.
* `Chain.cut?` — a chain cut at its first connective of one sort; `Chain.split?_question` says that its text is cut
  there.
* **`evaluateCondition_chain`** — a chain of unbroken texts means the conjunction of its groups.
-/

namespace Flowchart

/-! ### Conjunctions and disjunctions -/

namespace Action

variable {σ : Type}

/-- Whether all of the actions come out true.  Nothing is done after the first one that does not. -/
def allOf : List (Action σ Bool) → Action σ Bool
  | [] => pure true
  | act :: rest => act >>= fun a => if a then allOf rest else pure false

/-- Whether one of the actions comes out true.  Nothing is done after the first one that does. -/
def anyOf : List (Action σ Bool) → Action σ Bool
  | [] => pure false
  | act :: rest => act >>= fun a => if a then pure true else anyOf rest

/-- One action by itself is its own conjunction and its own disjunction. -/
theorem bind_ite_pure (act : Action σ Bool) : (act >>= fun a => if a then pure true else pure false) = act := by
  have hid : (fun a : Bool => (if a then pure true else pure false : Action σ Bool)) = pure := by
    funext a
    cases a <;> rfl
  rw [hid, bind_pure]

theorem allOf_singleton (act : Action σ Bool) : allOf [act] = act := bind_ite_pure act

theorem anyOf_singleton (act : Action σ Bool) : anyOf [act] = act := bind_ite_pure act

end Action

/-! ### Chains -/

/-- How a connective is written. -/
inductive Spelling where
  | word
  | doubled
  | single
  deriving DecidableEq

/-- A connective as it is written. -/
def Connective.spelled (k : Connective) : Spelling → Text
  | .word => k.word
  | .doubled => k.doubled
  | .single => [k.single]

/-- A connective between two operands, with the blanks before and after it. -/
structure Joint where
  connective : Connective
  spelling : Spelling
  before : Text
  after : Text
  deriving DecidableEq

namespace Joint

def text (j : Joint) : Text := j.before ++ j.connective.spelled j.spelling ++ j.after

/-- The connective counts between two texts: around it are blanks, and a word is no part of a longer one. -/
structure Parts (j : Joint) (left right : Text) : Prop where
  blank_before : ∀ c ∈ j.before, Text.isBlank c = true
  blank_after : ∀ c ∈ j.after, Text.isBlank c = true
  boundary_before : j.spelling = .word → Connective.isBoundary (left ++ j.before).getLast? = true
  boundary_after : j.spelling = .word → Connective.isBoundary (j.after ++ right).head? = true

end Joint

/-- Operands joined by connectives. -/
inductive Chain (α : Type) where
  | single (a : α)
  | join (a : α) (j : Joint) (rest : Chain α)

namespace Chain

variable {α β : Type}

/-- The operands of a chain. -/
def toList : Chain α → List α
  | single a => [a]
  | join a _ rest => a :: rest.toList

def map (f : α → β) : Chain α → Chain β
  | single a => single (f a)
  | join a j rest => join (f a) j (rest.map f)

/-- The operands between the *and*s of a chain. -/
def groups : Chain α → List (List α)
  | single a => [[a]]
  | join a j rest =>
    match j.connective, rest.groups with
    | .and, groups => [a] :: groups
    | .or, [] => [[a]]
    | .or, group :: groups => (a :: group) :: groups

/-- A chain of truth values: the conjunction of its groups, each of which is the disjunction of its operands. -/
def truth {σ : Type} (c : Chain (Action σ Bool)) : Action σ Bool := Action.allOf (c.groups.map Action.anyOf)

/-- A chain of texts as one text. -/
def text : Chain Text → Text
  | single t => t
  | join t j rest => t ++ (j.text ++ rest.text)

/-- The connectives of a chain count where they stand. -/
def Parted : Chain Text → Prop
  | single _ => True
  | join t j rest => j.Parts t rest.text ∧ rest.Parted

/-- The chain cut at its first connective of one sort. -/
def cut? (k : Connective) : Chain α → Option (Chain α × Joint × Chain α)
  | single _ => none
  | join a j rest =>
    if j.connective = k then some (single a, j, rest)
    else (rest.cut? k).map fun p => (join a j p.1, p.2.1, p.2.2)

/-! ### Groups -/

theorem groups_join_and (a : α) {j : Joint} (rest : Chain α) (hj : j.connective = .and) :
    (join a j rest).groups = [a] :: rest.groups := by
  rw [groups, hj]

theorem groups_join_or (a : α) {j : Joint} {rest : Chain α} (hj : j.connective = .or) {group : List α}
    {others : List (List α)} (h : rest.groups = group :: others) :
    (join a j rest).groups = (a :: group) :: others := by
  rw [groups, hj, h]

/-- A connective that is no *and* is an *or*. -/
theorem eq_or_of_ne {k : Connective} (h : k ≠ .and) : k = .or := by
  cases k with
  | and => exact absurd rfl h
  | or => rfl

/-- A chain without *and* is one group. -/
theorem groups_of_cut?_eq_none {c : Chain α} (h : c.cut? .and = none) : c.groups = [c.toList] := by
  induction c with
  | single a => rfl
  | join a j rest ih =>
    unfold cut? at h
    split at h
    · cases h
    · next hj => exact groups_join_or a (eq_or_of_ne hj) (ih (Option.map_eq_none_iff.mp h))

/-- The first *and* of a chain ends its first group. -/
theorem groups_of_cut?_eq_some {c l r : Chain α} {j : Joint} (h : c.cut? .and = some (l, j, r)) :
    c.groups = l.toList :: r.groups := by
  induction c generalizing l with
  | single a => cases h
  | join a i rest ih =>
    unfold cut? at h
    split at h
    · next hi =>
      cases h
      exact groups_join_and a _ hi
    · next hi =>
      obtain ⟨⟨l', j', r'⟩, hrest, heq⟩ := Option.map_eq_some_iff.mp h
      cases heq
      exact groups_join_or a (eq_or_of_ne hi) (ih hrest)

/-- The operands of a cut chain are those of its parts. -/
theorem toList_of_cut? {k : Connective} {c l r : Chain α} {j : Joint} (h : c.cut? k = some (l, j, r)) :
    c.toList = l.toList ++ r.toList := by
  induction c generalizing l with
  | single a => cases h
  | join a i rest ih =>
    unfold cut? at h
    split at h
    · cases h
      rfl
    · obtain ⟨⟨l', j', r'⟩, hrest, heq⟩ := Option.map_eq_some_iff.mp h
      cases heq
      exact congrArg (a :: ·) (ih hrest)

/-- Groups of values are values of groups. -/
theorem groups_map (f : α → β) (c : Chain α) : (c.map f).groups = c.groups.map (List.map f) := by
  induction c with
  | single a => rfl
  | join a j rest ih =>
    unfold map groups
    rw [ih]
    cases j.connective with
    | and => rfl
    | or => cases rest.groups <;> rfl

theorem toList_map (f : α → β) (c : Chain α) : (c.map f).toList = c.toList.map f := by
  induction c with
  | single a => rfl
  | join a j rest ih => exact congrArg (f a :: ·) ih

/-! ### Texts of chains -/

/-- Every operand is a text without connectives, tidy at its margins. -/
def Sound (c : Chain Text) : Prop := ∀ t ∈ c.toList, Condition.Unbroken t ∧ Condition.Tidy t

theorem Sound.first {t : Text} {j : Joint} {rest : Chain Text} (h : (join t j rest).Sound) :
    Condition.Unbroken t ∧ Condition.Tidy t := h t List.mem_cons_self

theorem Sound.rest {t : Text} {j : Joint} {rest : Chain Text} (h : (join t j rest).Sound) : rest.Sound :=
  fun u hu => h u (List.mem_cons_of_mem t hu)

/-- A chain of tidy texts is tidy. -/
theorem Sound.tidy {c : Chain Text} (h : c.Sound) : Condition.Tidy c.text := by
  induction c with
  | single t => exact (h t List.mem_cons_self).2
  | join t j rest ih =>
    have htidy := h.first.2.append (ih h.rest) j.text
    rwa [List.append_assoc] at htidy

end Chain

/-! ### Passing a connective -/

namespace Connective

/-- A connective of the sort that is looked for is found between boundaries, if no second sign follows a single one. -/
theorem after?_spelled (k : Connective) (s : Spelling) {before : Option Char} {r : Text}
    (hword : s = .word → isBoundary before = true ∧ isBoundary r.head? = true) (hsign : r.head? ≠ some k.single) :
    k.after? before (k.spelled s ++ r) = some r := by
  have hsame : ∀ t : Text, Text.after? t (t ++ r) = some r := fun t => Text.after?_eq_some_iff.mpr rfl
  unfold after?
  cases s with
  | doubled =>
    have hfound : Text.after? k.doubled (k.spelled .doubled ++ r) = some r := hsame _
    rw [hfound]
  | single =>
    have hno : Text.after? k.doubled (k.spelled .single ++ r) = none := by
      cases hr : Text.after? k.doubled (k.spelled .single ++ r) with
      | none => rfl
      | some rest =>
        have hrest := Text.after?_eq_some_iff.mp hr
        refine absurd ?_ hsign
        cases k <;> cases List.cons.inj hrest with | intro _ h => rw [show r = _ from h]; rfl
    have hfound : Text.after? [k.single] (k.spelled .single ++ r) = some r := hsame _
    rw [hno, hfound]
  | word =>
    obtain ⟨hbefore, hafter⟩ := hword rfl
    have hfound : Text.after? k.word (k.spelled .word ++ r) = some r := hsame _
    have hno : Text.after? k.doubled (k.spelled .word ++ r) = none ∧
        Text.after? [k.single] (k.spelled .word ++ r) = none := by
      cases k <;> exact ⟨rfl, rfl⟩
    rw [hno.1, hno.2, hfound]
    dsimp only
    rw [hbefore, hafter]
    rfl

/-- A connective of the other sort is passed. -/
theorem splitFrom?_spelled {k k' : Connective} (hk : k' ≠ k) (s : Spelling) {before : Option Char} {r : Text} :
    k.splitFrom? before {} (k'.spelled s ++ r) =
      (k.splitFrom? (k'.spelled s).getLast? {} r).map fun p => (k'.spelled s ++ p.1, p.2) := by
  have hpass : ∀ (b : Option Char) (c : Char) (u : Text), c ≠ k.single → k.word.head? ≠ some c →
      Nesting.next {} c = {} →
      k.splitFrom? b {} (c :: u) = (k.splitFrom? (some c) {} u).map fun p => (c :: p.1, p.2) := by
    intro b c u hsign hword hnext
    rw [splitFrom?_cons (after?_of_ne hsign hword), hnext]
  cases k <;> cases k' <;> try exact absurd rfl hk
  all_goals cases s <;> simp only [spelled, word, doubled, single, List.cons_append, List.nil_append]
  all_goals repeat rw [hpass _ _ _ (by decide) (by decide) rfl]
  all_goals simp [Option.map_map, Function.comp_def]

/-- Where a connective begins at the top level, the text is cut. -/
theorem splitFrom?_of_after? {k : Connective} {before : Option Char} {c : Char} {t r : Text}
    (hc : Nesting.isDelimiter c = false) (h : k.after? before (c :: t) = some r) :
    k.splitFrom? before {} (c :: t) = some ([], r) := by
  rw [splitFrom?]
  have hopen : ¬(Nesting.isDelimiter c || !Nesting.isTop {}) = true := by
    rw [hc]
    decide
  rw [if_neg hopen, h]

end Connective

/-- A text without connectives does not begin with the sign of one. -/
theorem Condition.Unbroken.head_ne {t : Text} (h : Unbroken t) (k : Connective) : t.head? ≠ some k.single := by
  cases t with
  | nil => exact fun h => by cases h
  | cons c t =>
    intro hc
    cases hc
    rcases (Connective.of_splitFrom?_cons (h.uncut k)).1 with hcovered | hnone
    · revert hcovered
      cases k <;> decide
    · exact (Connective.after?_eq_none_iff.mp hnone).1 rfl

namespace Chain

variable {t : Text} {j : Joint} {rest : Chain Text}

/-- No name goes over from an operand into the connective behind it. -/
theorem apart_joint (h : j.Parts t rest.text) : Connective.Apart t (j.text ++ rest.text) := by
  unfold Joint.text
  cases hbefore : j.before with
  | cons c m =>
    have hblank := h.blank_before c (by rw [hbefore]; exact List.mem_cons_self)
    refine .inr ?_
    simp [Connective.isBoundary, Text.isNamePart_of_isBlank hblank]
  | nil =>
    cases hspelling : j.spelling with
    | word =>
      have hboundary := h.boundary_before hspelling
      rw [hbefore, List.append_nil] at hboundary
      exact .inl hboundary
    | _ =>
      refine .inr ?_
      cases j.connective <;> rfl

/-- **The text of a chain is cut where the chain is cut.** -/
theorem splitFrom?_text {c : Chain Text} (hs : c.Sound) (hp : c.Parted) (k : Connective) (before : Option Char) :
    k.splitFrom? before {} c.text =
      (c.cut? k).map fun p => (p.1.text ++ p.2.1.before, p.2.1.after ++ p.2.2.text) := by
  induction c generalizing before with
  | single t => exact (hs t List.mem_cons_self).1.splitFrom?_eq_none k before
  | join t j rest ih =>
    obtain ⟨hparts, hrest⟩ := hp
    have hfirst := hs.first.1.splitFrom?_append k before (apart_joint hparts)
    -- The text goes on with blanks, the connective, blanks, and the rest of the chain.
    have hlast : t.getLast?.or before = t.getLast? := by
      rw [Option.or_eq_left_of_isSome (List.getLast?_isSome.mpr hs.first.2.ne_nil)]
    have hafter : (j.after ++ rest.text).head? ≠ some j.connective.single := by
      cases hblanks : j.after with
      | nil =>
        cases rest with
        | single u => exact (hs.rest u List.mem_cons_self).1.head_ne _
        | join u i more =>
          show (u ++ _).head? ≠ _
          rw [List.head?_append_of_ne_nil u hs.rest.first.2.ne_nil]
          exact hs.rest.first.1.head_ne _
      | cons d m =>
        have hblank := hparts.blank_after d (by rw [hblanks]; exact List.mem_cons_self)
        rintro hd
        cases hd
        revert hblank
        cases j.connective <;> decide
    rw [hlast] at hfirst
    show k.splitFrom? before {} (t ++ (j.text ++ rest.text)) = _
    rw [hfirst]
    unfold Joint.text
    rw [List.append_assoc, List.append_assoc, Connective.splitFrom?_blanks hparts.blank_before]
    unfold cut?
    by_cases hk : j.connective = k
    · subst hk
      have hfound : j.connective.after? (j.before.getLast?.or t.getLast?)
          (j.connective.spelled j.spelling ++ (j.after ++ rest.text)) = some (j.after ++ rest.text) := by
        refine Connective.after?_spelled _ _ (fun hword => ⟨?_, hparts.boundary_after hword⟩) hafter
        rw [← List.getLast?_append]
        exact hparts.boundary_before hword
      have hcut : j.connective.splitFrom? (j.before.getLast?.or t.getLast?) {}
          (j.connective.spelled j.spelling ++ (j.after ++ rest.text)) = some ([], j.after ++ rest.text) := by
        revert hfound
        cases j.connective <;> cases j.spelling <;> exact Connective.splitFrom?_of_after? rfl
      rw [hcut, if_pos rfl]
      simp [text]
    · rw [Connective.splitFrom?_spelled hk, Connective.splitFrom?_blanks hparts.blank_after, ih hs.rest hrest,
        if_neg hk]
      simp [Option.map_map, Function.comp_def, text, Joint.text]

/-- Nothing is left open behind a chain. -/
theorem Sound.closed {c : Chain Text} (hs : c.Sound) (hp : c.Parted) : Nesting.through? {} c.text = some {} := by
  induction c with
  | single t => exact (hs t List.mem_cons_self).1.closed
  | join t j rest ih =>
    have hspelled : Nesting.through? {} (j.connective.spelled j.spelling) = some {} := by
      cases j.connective <;> cases j.spelling <;> rfl
    show Nesting.through? {} (t ++ ((j.before ++ j.connective.spelled j.spelling ++ j.after) ++ rest.text)) = _
    rw [Nesting.through?_append, hs.first.1.closed, Option.bind_some, Nesting.through?_append, Nesting.through?_append,
      Nesting.through?_append, Nesting.through?_blanks hp.1.blank_before, Option.bind_some, hspelled, Option.bind_some,
      Nesting.through?_blanks hp.1.blank_after, Option.bind_some, ih hs.rest hp.2]

/-! ### What a chain means -/

/-- What is cut off in front begins as the chain does. -/
theorem head?_of_cut? {k : Connective} {c l r : Chain Text} (h : c.cut? k = some (l, j, r)) (hs : c.Sound) :
    l.text.head? = c.text.head? := by
  cases c with
  | single t => cases h
  | join t i rest =>
    have hne := hs.first.2.ne_nil
    have hwhole : (join t i rest).text.head? = t.head? := List.head?_append_of_ne_nil t hne
    rw [hwhole]
    unfold cut? at h
    split at h
    · cases h
      rfl
    · obtain ⟨⟨l', j', r'⟩, -, heq⟩ := Option.map_eq_some_iff.mp h
      cases heq
      exact List.head?_append_of_ne_nil t hne

/-- The parts of a chain that was cut at its first connective of one sort. -/
structure Cut (k : Connective) (l : Chain Text) (j : Joint) (r : Chain Text) : Prop where
  blank_before : ∀ d ∈ j.before, Text.isBlank d = true
  blank_after : ∀ d ∈ j.after, Text.isBlank d = true
  left_sound : l.Sound
  left_parted : l.Parted
  left_uncut : l.cut? k = none
  right_sound : r.Sound
  right_parted : r.Parted

/-- They are chains of the same sort, and there is nothing more to cut in the first one. -/
theorem cut_of_cut? {k : Connective} {c l r : Chain Text} (h : c.cut? k = some (l, j, r)) (hs : c.Sound)
    (hp : c.Parted) : Cut k l j r := by
  induction c generalizing l with
  | single t => cases h
  | join t i rest ih =>
    obtain ⟨hparts, hrest⟩ := hp
    unfold cut? at h
    split at h
    · cases h
      refine ⟨hparts.blank_before, hparts.blank_after, fun u hu => ?_, trivial, rfl, hs.rest, hrest⟩
      rw [List.mem_singleton.mp hu]
      exact hs.first
    · next hi =>
      obtain ⟨⟨l', j', r'⟩, hcut, heq⟩ := Option.map_eq_some_iff.mp h
      cases heq
      have hlater := ih hcut hs.rest hrest
      have hhead := head?_of_cut? hcut hs.rest
      refine { hlater with left_sound := fun u hu => ?_, left_parted := ⟨{ hparts with boundary_after := fun hword => ?_ },
        hlater.left_parted⟩, left_uncut := ?_ }
      · rcases List.mem_cons.mp hu with rfl | hu
        · exact hs.first
        · exact hlater.left_sound u hu
      · rw [List.head?_append, hhead, ← List.head?_append]
        exact hparts.boundary_after hword
      · unfold cut?
        rw [if_neg hi, hlater.left_uncut]
        rfl

/-- A chain has an operand. -/
theorem toList_ne_nil {α : Type} (c : Chain α) : c.toList ≠ [] := by
  cases c <;> exact List.cons_ne_nil _ _

section

variable {σ : Type} (env : Environment σ) {c l r : Chain Text} {k : Connective}

/-- Blanks at the margins of a chain make no difference. -/
theorem Cut.evaluate_left (h : Cut k l j r) :
    evaluateCondition env (l.text ++ j.before) = evaluateCondition env l.text := by
  have hquestion := h.left_sound.tidy.question_margins (m := []) (by simp) h.blank_before
  exact evaluateCondition_congr env (hquestion.trans h.left_sound.tidy.question_eq.symm)

theorem Cut.evaluate_right (h : Cut k l j r) :
    evaluateCondition env (j.after ++ r.text) = evaluateCondition env r.text := by
  have hquestion := @Condition.Tidy.question_margins _ [] _ h.right_sound.tidy h.blank_after (by simp)
  rw [List.append_nil] at hquestion
  exact evaluateCondition_congr env (hquestion.trans h.right_sound.tidy.question_eq.symm)

/-- What the reader finds in the text of a chain. -/
theorem split?_question (hs : c.Sound) (hp : c.Parted) (k : Connective) :
    k.split? (Condition.question c.text) =
      (c.cut? k).map fun p => (p.1.text ++ p.2.1.before, p.2.1.after ++ p.2.2.text) := by
  rw [hs.tidy.question_eq]
  exact splitFrom?_text hs hp k none

/-- **A chain without *and*** is the disjunction of its operands, by induction on the operands. -/
theorem evaluateCondition_of_uncut (hs : c.Sound) (hp : c.Parted) (hcut : c.cut? .and = none) :
    evaluateCondition env c.text = Action.anyOf (c.toList.map (evaluateCondition env)) := by
  induction c with
  | single t => exact (Action.anyOf_singleton _).symm
  | join t i rest ih =>
    have hi : i.connective = .or := by
      unfold cut? at hcut
      split at hcut
      · cases hcut
      · next hne => exact eq_or_of_ne hne
    have hrest : rest.cut? .and = none := by
      unfold cut? at hcut
      rw [hi, if_neg (by decide)] at hcut
      exact Option.map_eq_none_iff.mp hcut
    have hor : (join t i rest).cut? .or = some (single t, i, rest) := if_pos hi
    have hparts := cut_of_cut? hor hs hp
    rw [evaluateCondition_of_or env (by rw [split?_question hs hp, hcut]; rfl) (by rw [split?_question hs hp, hor]; rfl)]
    rw [hparts.evaluate_left, hparts.evaluate_right, ih hs.rest hp.2 hrest]
    rfl

/-- **A chain is the conjunction of its groups**, by induction on the number of its operands: behind the first *and*
there are fewer. -/
theorem evaluateCondition_chain (hs : c.Sound) (hp : c.Parted) :
    evaluateCondition env c.text = (c.map (evaluateCondition env)).truth := by
  unfold truth
  rw [groups_map]
  induction hn : c.toList.length using Nat.strongRecOn generalizing c with
  | ind n ih =>
    cases hcut : c.cut? .and with
    | none =>
      rw [evaluateCondition_of_uncut env hs hp hcut, groups_of_cut?_eq_none hcut]
      exact (Action.allOf_singleton _).symm
    | some parts =>
      obtain ⟨l, j, r⟩ := parts
      have hparts := cut_of_cut? hcut hs hp
      have hfewer : r.toList.length < n := by
        have hpos := List.length_pos_iff.mpr l.toList_ne_nil
        rw [← hn, toList_of_cut? hcut, List.length_append]
        omega
      rw [evaluateCondition_of_and env (by rw [split?_question hs hp, hcut]; rfl), hparts.evaluate_left,
        hparts.evaluate_right, evaluateCondition_of_uncut env hparts.left_sound hparts.left_parted hparts.left_uncut,
        ih _ hfewer hparts.right_sound hparts.right_parted rfl, groups_of_cut?_eq_some hcut]
      rfl

end

end Chain

end Flowchart
