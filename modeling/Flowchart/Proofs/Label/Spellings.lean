import Flowchart.Proofs.Session.AsFunction
import Flowchart.Proofs.Script.Labels
import Flowchart.Proofs.Text.Pieces

/-!
# Instructions written on labels

An instruction can be written down, and what is written is read as that instruction.  It takes care to write it so that
it is taken apart where it was put together: an expression must not end with the semicolon that ends a statement, a
variable that is read must not hold the comma that separates it from the next one, and a clause or an argument may hold
separators only between parentheses that it closes, or in quotations that it ends.

* `Text.Phrase` — what can stand at the end of a statement.
* `Instruction.WellFormed` — the instructions that can be written down.
* `Instruction.labels` — how they are written: a counting loop in two ways, all others in one.
* `assignment?_spelled`, `Literal.call?_spelled`, `Instruction.readForLoop_spelled`, `Instruction.readInput_spelled` —
  what the readers find in what was written.
* **`Block.instruction_labels`** — reading undoes writing.
-/

namespace Flowchart

variable {t u r : Text}

/-! ### Statements -/

/-- A text without margins may have something in front of it that begins with no blank. -/
theorem Text.trim_append (ht : trim t = t) (hne : t ≠ []) (hu : u ≠ []) (hfirst : ∀ c ∈ u.head?, isBlank c = false) :
    trim (u ++ t) = u ++ t := by
  refine trim_eq_of_edges ?_ ?_
  · rwa [List.head?_append_of_ne_nil u hu]
  · rw [List.getLast?_append_of_ne_nil u hne]
    exact (edges_of_trim ht).2

/-- Nothing is taken away at the end of a text that ends otherwise. -/
theorem withoutEnd_eq_self {c : Char} (h : t.getLast? ≠ some c) : withoutEnd c t = t := by
  refine List.rdropWhile_eq_self_iff.mpr fun hne hlast => h ?_
  rw [List.getLast?_eq_getLast_of_ne_nil hne, beq_iff_eq.mp hlast]

/-- A text without margins that is not empty and that no semicolon ends. -/
structure Text.Phrase (t : Text) : Prop where
  ne_nil : t ≠ []
  trimmed : trim t = t
  unterminated : t.getLast? ≠ some ';'

namespace Text.Phrase

instance (t : Text) : Decidable (Phrase t) :=
  decidable_of_iff (t ≠ [] ∧ trim t = t ∧ t.getLast? ≠ some ';')
    ⟨fun h => ⟨h.1, h.2.1, h.2.2⟩, fun h => ⟨h.1, h.2, h.3⟩⟩

/-- Something may stand in front of a phrase, if it begins with no blank. -/
theorem append (ht : Phrase t) (hne : u ≠ []) (hfirst : ∀ c ∈ u.head?, isBlank c = false) : Phrase (u ++ t) where
  ne_nil := List.append_ne_nil_of_left_ne_nil hne t
  trimmed := trim_append ht.trimmed ht.ne_nil hne hfirst
  unterminated := by
    rw [List.getLast?_append_of_ne_nil u ht.ne_nil]
    exact ht.unterminated

/-- Nothing is taken away from a phrase where a statement is read. -/
theorem withoutTerminator_eq (ht : Phrase t) : withoutTerminator t = t := by
  rw [withoutTerminator, ht.trimmed, withoutEnd_eq_self ht.unterminated, trimEnd_eq_self (edges_of_trim ht.trimmed).2]

end Text.Phrase

namespace Instruction

/-! ### What can be written -/

/-- The parts of the instruction can be told apart when they are written on one label. -/
def WellFormed : Instruction → Prop
  | start | finish | merge => True
  | assign (some name) expression => Text.isName name.toList ∧ Text.Phrase expression
  | assign none expression => Text.Phrase expression ∧ assignment? expression = none
  | input names =>
    names ≠ [] ∧ ∀ name ∈ names, name.toList ≠ [] ∧ Text.trim name.toList = name.toList ∧ ',' ∉ name.toList
  | output expression => Text.Phrase expression
  | choose condition | whileLoop condition | doWhile condition => condition ≠ [] ∧ Text.trim condition = condition
  | forLoop init condition increment =>
    (∀ clause ∈ [init, condition, increment], Text.Whole ';' clause ∧ Text.trim clause = clause) ∧
      -- the first clause does not begin with the word that is taken off in front of it
      ∀ rest ∈ Text.after? "for".toList init, atWordEnd rest = false
  | call target function arguments =>
    (∀ name ∈ target, Text.isName name.toList) ∧ Text.isName function.toList ∧
      (∀ argument ∈ arguments, Text.Whole ',' argument ∧ Text.trim argument = argument) ∧ arguments ≠ [[]]

instance : DecidablePred WellFormed
  | start | finish | merge => inferInstanceAs (Decidable True)
  | assign (some name) expression => inferInstanceAs (Decidable (Text.isName name.toList ∧ Text.Phrase expression))
  | assign none expression => inferInstanceAs (Decidable (Text.Phrase expression ∧ assignment? expression = none))
  | input names => inferInstanceAs (Decidable (names ≠ [] ∧ ∀ name ∈ names,
      name.toList ≠ [] ∧ Text.trim name.toList = name.toList ∧ ',' ∉ name.toList))
  | output expression => inferInstanceAs (Decidable (Text.Phrase expression))
  | choose condition => inferInstanceAs (Decidable (condition ≠ [] ∧ Text.trim condition = condition))
  | whileLoop condition => inferInstanceAs (Decidable (condition ≠ [] ∧ Text.trim condition = condition))
  | doWhile condition => inferInstanceAs (Decidable (condition ≠ [] ∧ Text.trim condition = condition))
  | forLoop init condition increment => inferInstanceAs (Decidable
      ((∀ clause ∈ [init, condition, increment], Text.Whole ';' clause ∧ Text.trim clause = clause) ∧
        ∀ rest ∈ Text.after? "for".toList init, atWordEnd rest = false))
  | call target function arguments => inferInstanceAs (Decidable
      ((∀ name ∈ target, Text.isName name.toList = true) ∧ Text.isName function.toList = true ∧
        (∀ argument ∈ arguments, Text.Whole ',' argument ∧ Text.trim argument = argument) ∧ arguments ≠ [[]]))

/-! ### How it is written -/

/-- The beginning of a statement that assigns a value. -/
def assigned : Option String → Text
  | none => []
  | some name => name.toList ++ " = ".toList

/-- The labels on which the instruction is written. -/
def labels : Instruction → List Text
  | start | finish | merge => [[]]
  | assign target expression => [assigned target ++ expression]
  | input names => ["I: ".toList ++ ", ".toList.intercalate (names.map String.toList)]
  | output expression => ["O: ".toList ++ expression]
  | choose condition | whileLoop condition | doWhile condition => [condition]
  | forLoop init condition increment =>
    let clauses := "; ".toList.intercalate [init, condition, increment]
    [clauses, "for (".toList ++ clauses ++ ")".toList]
  | call target function arguments =>
    [assigned target ++ (function.toList ++ "(".toList ++ ", ".toList.intercalate arguments ++ ")".toList)]

end Instruction

/-! ### Assignments -/

/-- A character that is no part of names does not occur in one. -/
theorem Text.not_mem_name {name : Text} (hname : isName name = true) {c : Char} (hc : isNamePart c = false) :
    c ∉ name := by
  intro hmem
  rw [isNamePart_of_mem_name hname hmem] at hc
  cases hc

theorem Text.ne_nil_of_isName {name : Text} (hname : isName name = true) : name ≠ [] := by
  rintro rfl
  cases hname

/-- A text that begins with a name begins with no blank. -/
theorem Text.head?_name_append {name : Text} (hname : isName name = true) (r : Text) :
    ∀ c ∈ (name ++ r).head?, isBlank c = false := by
  intro c hc
  rw [List.head?_append_of_ne_nil _ (ne_nil_of_isName hname)] at hc
  exact isBlank_of_mem_name hname (List.mem_of_mem_head? hc)

/-- The equality sign of an assignment is looked for behind a text that has none. -/
theorem loneEquals?_append (h : '=' ∉ t) (before : Option Char) (r : Text) :
    loneEquals? before (t ++ r) = (loneEquals? (t.getLast?.or before) r).map fun p => (t ++ p.1, p.2) := by
  induction t generalizing before with
  | nil => simp
  | cons c t ih =>
    rw [List.mem_cons, not_or] at h
    rw [List.cons_append, loneEquals?, if_neg (by simp [Ne.symm h.1]), ih h.2, Option.map_map]
    cases t with
    | nil => rfl
    | cons d t => simp [List.getLast?_cons_cons]; rfl

/-- **What is assigned to a name** is read as assigned to it. -/
theorem assignment?_spelled {name : String} (hname : Text.isName name.toList) (ht : Text.Phrase t) :
    assignment? (Instruction.assigned (some name) ++ t) = some ⟨name.toList, t⟩ := by
  have hsign : '=' ∉ name.toList ++ [' '] := by simp [Text.not_mem_name hname (c := '=') rfl]
  have hcut : loneEquals? none (Instruction.assigned (some name) ++ t) = some (name.toList ++ [' '], ' ' :: t) := by
    have happend := loneEquals?_append hsign none ('=' :: ' ' :: t)
    rw [List.getLast?_concat, Option.some_or] at happend
    have htext : Instruction.assigned (some name) ++ t = (name.toList ++ [' ']) ++ '=' :: ' ' :: t := by
      simp [Instruction.assigned]
    have hsides : loneEquals? (some ' ') ('=' :: ' ' :: t) = some ([], ' ' :: t) := by simp [loneEquals?, isComparing]
    rw [htext, happend, hsides]
    simp
  have hleft : Text.trim (name.toList ++ [' ']) = name.toList := by
    rw [Text.trim_append_blanks Text.blanks_space]
    exact Text.trim_eq_of_edges (fun c hc => Text.isBlank_of_mem_name hname (List.mem_of_mem_head? hc))
      fun c hc => Text.isBlank_of_mem_name hname (List.mem_of_getLast? hc)
  have hright : Text.trim (' ' :: t) = t := (Text.trim_blanks_append Text.blanks_space t).trans ht.trimmed
  unfold assignment?
  rw [hcut]
  dsimp only
  rw [hleft, hright, if_pos (by simp [hname, ht.ne_nil])]

/-- Nothing is assigned where a parenthesis opens behind a name. -/
theorem assignment?_application {name : Text} (hname : Text.isName name = true) (r : Text) :
    assignment? (name ++ '(' :: r) = none := by
  have hsign : '=' ∉ name ++ ['('] := by simp [Text.not_mem_name hname (c := '=') rfl]
  have hcut := loneEquals?_append hsign none r
  rw [List.append_assoc, List.singleton_append] at hcut
  unfold assignment?
  rw [hcut]
  cases loneEquals? ((name ++ ['(']).getLast?.or none) r with
  | none => rfl
  | some sides =>
    dsimp only [Option.map_some]
    -- The parenthesis stays in what would be the name.
    have hmem : '(' ∈ Text.trim (name ++ ['('] ++ sides.1) := by
      have hstart : Text.trimStart (name ++ ['('] ++ sides.1) = name ++ ['('] ++ sides.1 := by
        rw [List.append_assoc]
        exact Text.trimStart_eq_self (Text.head?_name_append hname _)
      have hprefix := Text.prefix_trimEnd_of_prefix (u := name ++ ['(']) (List.prefix_append _ sides.1)
        fun c hc => by
          rw [List.getLast?_concat] at hc
          cases hc
          rfl
      rw [Text.trim, hstart]
      exact hprefix.subset (List.mem_append_right name List.mem_cons_self)
    rw [if_neg]
    intro hboth
    rw [Bool.and_eq_true] at hboth
    exact Text.not_mem_name hboth.1 rfl hmem

/-! ### Calls -/

/-- A name and a text in parentheses are read as a call, if the text closes what it opens. -/
theorem Literal.call?_application {name inner : Text} (hname : Text.isName name = true)
    (hinner : Nesting.through? {} inner = some {}) :
    call? (name ++ '(' :: (inner ++ [')'])) = some ⟨name, arguments (Text.trim inner)⟩ := by
  have hopen : ∀ c ∈ name, (c != '(') = true := by
    intro c hc
    rw [bne_iff_ne]
    rintro rfl
    exact Text.not_mem_name hname rfl hc
  have hparenthesis : ∀ c ∈ ('(' :: (inner ++ [')'])).head?, (c != '(') = false := by rintro _ ⟨⟩; rfl
  obtain ⟨htake, hdrop⟩ := Text.split_run hopen hparenthesis
  have hend : Text.trimEnd name = name :=
    Text.trimEnd_eq_self fun c hc => Text.isBlank_of_mem_name hname (List.mem_of_getLast? hc)
  unfold call?
  dsimp only
  rw [htake, hdrop, hend, if_pos hname, Text.enclosed?_of_through hinner]
  rfl

/-- **Arguments with commas between them** are read as these arguments, unless a single one is empty. -/
theorem Literal.arguments_spelled {arguments : List Text} (hne : arguments ≠ [[]])
    (h : ∀ argument ∈ arguments, Text.Whole ',' argument ∧ Text.trim argument = argument) :
    Literal.arguments (Text.trim (", ".toList.intercalate arguments)) = arguments := by
  cases arguments with
  | nil => rfl
  | cons first rest =>
    have hparts := Text.map_trim_splitTop_spaced rfl rfl (List.cons_ne_nil first rest) h
    have htext : Text.trim (", ".toList.intercalate (first :: rest)) ≠ [] := by
      intro hnil
      rw [show [',', ' '] = ", ".toList from rfl, hnil] at hparts
      exact hne hparts.symm
    rw [Literal.arguments, if_neg (by rwa [List.isEmpty_iff])]
    exact hparts

/-- **A call that is written down** is read as this call. -/
theorem Literal.call?_spelled {name : Text} {arguments : List Text} (hname : Text.isName name = true)
    (hne : arguments ≠ [[]])
    (h : ∀ argument ∈ arguments, Text.Whole ',' argument ∧ Text.trim argument = argument) :
    call? (name ++ '(' :: (", ".toList.intercalate arguments ++ [')'])) = some ⟨name, arguments⟩ := by
  have hclosed := Text.through?_intercalate ", ".toList rfl fun argument hmem => (h argument hmem).1.closed
  rw [call?_application hname hclosed, arguments_spelled hne h]

/-! ### Counting loops -/

/-- A beginning is looked for only in front of a character that does not occur in it. -/
theorem Text.after?_append {start : Text} {c : Char} (hc : c ∉ start) (t r : Text) :
    after? start (t ++ c :: r) = (after? start t).map (· ++ c :: r) := by
  induction start generalizing t with
  | nil => rfl
  | cons b start ih =>
    rw [List.mem_cons, not_or] at hc
    cases t with
    | nil => exact if_neg (Ne.symm hc.1)
    | cons d t =>
      rw [List.cons_append, after?, after?]
      split
      · exact ih hc.2 t
      · rfl

/-- Clauses without parentheses around them are the header of a loop, unless they begin with the word `for`. -/
theorem loopHeader_bare {init : Text} (hclosed : Nesting.through? {} init = some {})
    (hfor : ∀ rest ∈ Text.after? "for".toList init, atWordEnd rest = false) (htrim : Text.trim t = t)
    (ht : t = init ++ ';' :: r) : loopHeader t = t := by
  have hbare : Text.enclosed? t = none := by
    rw [ht]
    exact Text.enclosed?_append_eq_none hclosed (by decide) r
  have hafter : Text.after? "for".toList t = (Text.after? "for".toList init).map (· ++ ';' :: r) := by
    rw [ht, Text.after?_append (by decide)]
  unfold loopHeader
  dsimp only
  rw [hafter]
  cases hinit : Text.after? "for".toList init with
  | none =>
    dsimp only [Option.map_none]
    rw [htrim, hbare]
  | some rest =>
    have hword : atWordEnd (rest ++ ';' :: r) = false := by
      have hend := hfor rest hinit
      cases rest with
      | nil => cases hend
      | cons d rest => exact hend
    dsimp only [Option.map_some]
    rw [hword, if_neg Bool.false_ne_true, htrim, hbare]

/-- Behind the word `for`, clauses in parentheses are the header of a loop. -/
theorem loopHeader_enclosed (hclosed : Nesting.through? {} t = some {}) :
    loopHeader ("for (".toList ++ t ++ ")".toList) = Text.trim t := by
  have hafter : Text.after? "for".toList ("for (".toList ++ t ++ ")".toList) = some (' ' :: '(' :: (t ++ [')'])) :=
    Text.after?_eq_some_iff.mpr (by simp)
  have htrim : Text.trim (' ' :: '(' :: (t ++ [')'])) = '(' :: (t ++ [')']) := by
    refine (Text.trim_blanks_append Text.blanks_space _).trans (Text.trim_eq_of_edges (fun c hc => ?_) fun c hc => ?_)
    · cases hc
      rfl
    · rw [← List.cons_append, List.getLast?_concat] at hc
      cases hc
      rfl
  unfold loopHeader
  dsimp only
  rw [hafter]
  dsimp only
  rw [if_pos (show atWordEnd (' ' :: '(' :: (t ++ [')'])) = true from rfl), htrim, Text.enclosed?_of_through hclosed]

/-- A header that is cut into three clauses is read as a loop with these clauses. -/
theorem Instruction.readForLoop_of_clauses {init condition increment : Text}
    (h : (Text.splitTop ';' (loopHeader t)).map Text.trim = [init, condition, increment]) :
    readForLoop t = .ok (.forLoop init condition increment) := by
  obtain ⟨first, behind, hparts, rfl, hbehind⟩ := List.map_eq_cons_iff.mp h
  obtain ⟨second, behind, rfl, rfl, hlast⟩ := List.map_eq_cons_iff.mp hbehind
  obtain ⟨third, behind, rfl, rfl, hend⟩ := List.map_eq_cons_iff.mp hlast
  obtain rfl := List.map_eq_nil_iff.mp hend
  unfold readForLoop
  rw [hparts]

/-! ### Variables and expressions behind keywords -/

/-- A keyword may be shortened to its first letter, with a colon behind it. -/
theorem withoutKeyword_letter {keyword : Text} {b d c : Char} {letters : Text} (hkeyword : keyword = b :: d :: letters)
    (hc : b = c.toLower) (hd : d ≠ ':'.toLower) (t : Text) : withoutKeyword keyword (c :: ':' :: t) = Text.trim t := by
  have hword : afterIgnoringCase? keyword (c :: ':' :: t) = none := by
    rw [hkeyword, afterIgnoringCase?, if_pos hc, afterIgnoringCase?, if_neg hd]
  have hletter : afterIgnoringCase? (keyword.take 1) (c :: ':' :: t) = some (':' :: t) := by
    rw [hkeyword]
    exact if_pos hc
  have hcolon : Text.trimStart (':' :: t) = ':' :: t := rfl
  unfold withoutKeyword afterKeyword?
  dsimp only
  rw [hword, hletter]
  dsimp only [Option.bind_none, Option.map_some]
  rw [hcolon]
  show Text.trim (Text.trimStart t) = Text.trim t
  rw [Text.trim, Text.trimStart_trimStart, Text.trim]

/-- What is put together from texts that are not empty is not empty. -/
theorem Text.intercalate_ne_nil (between : Text) {pieces : List Text} (hne : pieces ≠ [])
    (h : ∀ piece ∈ pieces, piece ≠ []) : between.intercalate pieces ≠ [] := by
  obtain ⟨first, rest, rfl⟩ := List.exists_cons_of_ne_nil hne
  have hfirst := h first List.mem_cons_self
  cases rest with
  | nil => rwa [List.intercalate_singleton]
  | cons second rest =>
    rw [List.intercalate_cons_cons, List.append_assoc]
    exact List.append_ne_nil_of_left_ne_nil hfirst _

/-- Texts without margins have none when they are put together. -/
theorem Text.trim_intercalate (between : Text) {pieces : List Text}
    (h : ∀ piece ∈ pieces, piece ≠ [] ∧ trim piece = piece) :
    trim (between.intercalate pieces) = between.intercalate pieces := by
  induction pieces with
  | nil => rfl
  | cons first rest ih =>
    obtain ⟨hne, htrim⟩ := h first List.mem_cons_self
    have htail : ∀ piece ∈ rest, piece ≠ [] ∧ trim piece = piece := fun piece hpiece =>
      h piece (List.mem_cons_of_mem first hpiece)
    cases rest with
    | nil => rwa [List.intercalate_singleton]
    | cons second rest =>
      have hrest : between.intercalate (second :: rest) ≠ [] :=
        intercalate_ne_nil between (List.cons_ne_nil _ _) fun piece hpiece => (htail piece hpiece).1
      rw [List.intercalate_cons_cons]
      refine trim_append (ih htail) hrest (List.append_ne_nil_of_left_ne_nil hne _) ?_
      rw [List.head?_append_of_ne_nil first hne]
      exact (edges_of_trim htrim).1

/-- **Variables with commas between them** are read as these variables. -/
theorem Instruction.readInput_spelled {names : List String} (hne : names ≠ [])
    (h : ∀ name ∈ names, name.toList ≠ [] ∧ Text.trim name.toList = name.toList ∧ ',' ∉ name.toList) :
    readInput ("I: ".toList ++ ", ".toList.intercalate (names.map String.toList)) = .ok (.input names) := by
  have htexts : ∀ t ∈ names.map String.toList, t ≠ [] ∧ Text.trim t = t ∧ ',' ∉ t := by
    intro t ht
    obtain ⟨name, hname, rfl⟩ := List.mem_map.mp ht
    exact h name hname
  have hjoined := Text.trim_intercalate ", ".toList fun t ht => ⟨(htexts t ht).1, (htexts t ht).2.1⟩
  have hrest : withoutKeyword "input".toList ("I: ".toList ++ ", ".toList.intercalate (names.map String.toList)) =
      ", ".toList.intercalate (names.map String.toList) := by
    refine (withoutKeyword_letter (c := 'I') rfl (by decide) (by decide)
      (' ' :: ", ".toList.intercalate (names.map String.toList))).trans ?_
    exact (Text.trim_blanks_append Text.blanks_space _).trans hjoined
  have hparts : ((", ".toList.intercalate (names.map String.toList)).splitOn ',').map Text.trim =
      names.map String.toList :=
    Text.map_trim_splitOn_spaced (by decide) (mt List.map_eq_nil_iff.mp hne) fun t ht => (htexts t ht).2
  have hfilter : (names.map String.toList).filter (!·.isEmpty) = names.map String.toList := by
    refine List.filter_eq_self.mpr fun t ht => ?_
    rw [Bool.not_eq_true', List.isEmpty_eq_false_iff]
    exact (htexts t ht).1
  have hnames : (names.map String.toList).map String.ofList = names := by
    rw [List.map_map]
    exact (List.map_congr_left fun name _ => String.ofList_toList).trans (List.map_id names)
  unfold readInput
  dsimp only
  rw [hrest, hparts, hfilter, if_neg (by simpa using hne), hnames]

/-! ### Reading what was written -/

/-- The beginning of an assignment can stand in front of any phrase. -/
theorem Text.Phrase.assigned {target : Option String} (htarget : ∀ name ∈ target, isName name.toList) (ht : Phrase t) :
    Phrase (Instruction.assigned target ++ t) := by
  cases target with
  | none => exact ht
  | some name =>
    have hname := htarget name rfl
    exact ht.append (List.append_ne_nil_of_left_ne_nil (ne_nil_of_isName hname) _) (head?_name_append hname _)

/-- A call is a phrase: it begins with a name and ends with a parenthesis. -/
theorem Text.Phrase.application {name : Text} (hname : isName name = true) (inner : Text) :
    Phrase (name ++ "(".toList ++ inner ++ ")".toList) := by
  have hclose : Phrase ")".toList := by decide
  rw [List.append_assoc name]
  exact hclose.append (List.append_ne_nil_of_left_ne_nil (ne_nil_of_isName hname) _) (head?_name_append hname _)

namespace Instruction

theorem readAssignment_spelled {target : Option String} {expression : Text}
    (h : (assign target expression).WellFormed) :
    readAssignment (assigned target ++ expression) = .ok (.assign target expression) := by
  cases target with
  | none =>
    obtain ⟨hphrase, hnone⟩ := h
    have hne : expression.isEmpty = false := List.isEmpty_eq_false_iff.mpr hphrase.ne_nil
    unfold readAssignment
    dsimp only
    rw [assigned, List.nil_append, hphrase.withoutTerminator_eq, hne, hnone]
    rfl
  | some name =>
    obtain ⟨hname, hexpression⟩ := h
    have hphrase : Text.Phrase (assigned (some name) ++ expression) :=
      Text.Phrase.assigned (fun _ h => by cases h; exact hname) hexpression
    have hne : (assigned (some name) ++ expression).isEmpty = false := List.isEmpty_eq_false_iff.mpr hphrase.ne_nil
    unfold readAssignment
    dsimp only
    rw [hphrase.withoutTerminator_eq, hne, assignment?_spelled hname hexpression]
    dsimp only
    rw [String.ofList_toList]
    rfl

theorem readOutput_spelled {expression : Text} (h : Text.Phrase expression) :
    readOutput ("O: ".toList ++ expression) = .ok (.output expression) := by
  have hrest : withoutKeyword "output".toList ("O: ".toList ++ expression) = expression := by
    refine (withoutKeyword_letter (c := 'O') rfl (by decide) (by decide) (' ' :: expression)).trans ?_
    exact (Text.trim_blanks_append Text.blanks_space _).trans h.trimmed
  have hne : expression.isEmpty = false := List.isEmpty_eq_false_iff.mpr h.ne_nil
  unfold readOutput
  dsimp only
  rw [hrest, h.withoutTerminator_eq, hne]
  rfl

/-- The first clause stays in front of its semicolon when the margins of the clauses are taken off. -/
theorem trim_clauses {init : Text} (h : Text.trim init = init) (second : Text) (rest : List Text) :
    ∃ more, Text.trim ("; ".toList.intercalate (init :: second :: rest)) = init ++ ';' :: more := by
  have htext : "; ".toList.intercalate (init :: second :: rest) =
      init ++ [';'] ++ ' ' :: "; ".toList.intercalate (second :: rest) := by
    rw [List.intercalate_cons_cons, List.append_assoc, List.append_assoc]
    rfl
  have hfirst : ∀ c ∈ (init ++ [';']).head?, Text.isBlank c = false := by
    cases init with
    | nil =>
      intro c hc
      cases hc
      rfl
    | cons d init => exact (Text.edges_of_trim h).1
  have hstart : Text.trimStart (init ++ [';'] ++ ' ' :: "; ".toList.intercalate (second :: rest)) =
      init ++ [';'] ++ ' ' :: "; ".toList.intercalate (second :: rest) := by
    refine Text.trimStart_eq_self ?_
    rwa [List.head?_append_of_ne_nil _ (List.append_ne_nil_of_right_ne_nil _ (List.cons_ne_nil _ _))]
  obtain ⟨more, hmore⟩ := Text.prefix_trimEnd_of_prefix (List.prefix_append (init ++ [';']) _) fun c hc => by
    rw [List.getLast?_concat] at hc
    cases hc
    rfl
  exact ⟨more, by rw [htext, Text.trim, hstart, ← hmore, List.append_assoc, List.singleton_append]⟩

/-- The clauses of a loop are found in both ways to write it. -/
theorem readForLoop_spelled {init condition increment label : Text}
    (h : (forLoop init condition increment).WellFormed) (hlabel : label ∈ (forLoop init condition increment).labels) :
    readForLoop (Text.trim label) = .ok (.forLoop init condition increment) := by
  obtain ⟨hclauses, hfor⟩ := h
  have hclosed := Text.through?_intercalate "; ".toList rfl fun clause hmem =>
    (hclauses clause hmem).1.closed
  have hparts := Text.map_trim_splitTop_spaced rfl rfl (List.cons_ne_nil _ _) hclauses
  have hheader : loopHeader (Text.trim label) = Text.trim ("; ".toList.intercalate [init, condition, increment]) := by
    unfold labels at hlabel
    rcases List.mem_pair.mp hlabel with rfl | rfl
    · obtain ⟨hinit, hmargins⟩ := hclauses init List.mem_cons_self
      obtain ⟨more, hmore⟩ := trim_clauses hmargins condition [increment]
      exact loopHeader_bare hinit.closed hfor (Text.trim_trim _) hmore
    · have hclose : Text.Phrase ")".toList := by decide
      have hphrase := hclose.append (u := "for (".toList ++ "; ".toList.intercalate [init, condition, increment])
        (List.cons_ne_nil _ _) fun c hc => by
          cases hc
          rfl
      rw [hphrase.trimmed, loopHeader_enclosed hclosed]
  refine readForLoop_of_clauses ?_
  rw [hheader]
  exact hparts

theorem readCall_spelled {target : Option String} {function : String} {arguments : List Text}
    (h : (call target function arguments).WellFormed) :
    readCall (assigned target ++ (function.toList ++ "(".toList ++ ", ".toList.intercalate arguments ++ ")".toList)) =
      .ok (.call target function arguments) := by
  obtain ⟨htarget, hfunction, harguments, hne⟩ := h
  have happlication := Text.Phrase.application hfunction (", ".toList.intercalate arguments)
  have htext : function.toList ++ "(".toList ++ ", ".toList.intercalate arguments ++ ")".toList =
      function.toList ++ '(' :: (", ".toList.intercalate arguments ++ [')']) := by simp
  have hcall := Literal.call?_spelled hfunction hne harguments
  have hphrase := Text.Phrase.assigned htarget happlication
  unfold readCall
  dsimp only
  rw [hphrase.withoutTerminator_eq]
  cases target with
  | none =>
    rw [assigned, List.nil_append, htext, assignment?_application hfunction]
    dsimp only
    rw [hcall]
    dsimp only
    rw [String.ofList_toList]
  | some name =>
    rw [assignment?_spelled (htarget name rfl) happlication]
    dsimp only
    rw [htext, hcall]
    dsimp only
    rw [String.ofList_toList, String.ofList_toList]

end Instruction

/-- **Reading undoes writing.**  An instruction that can be written down is what is read from each of the labels on
which it is written. -/
theorem Block.instruction_labels (id : BlockId) {i : Instruction} (h : i.WellFormed) {label : Text}
    (hlabel : label ∈ i.labels) : (⟨id, i.kind, String.ofList label⟩ : Block).instruction = .ok i := by
  refine Block.instruction_eq_ok_iff.mpr ?_
  rw [String.toList_ofList]
  have hcondition : ∀ (form : Text → Instruction) {condition : Text}, condition ≠ [] ∧ Text.trim condition = condition →
      Instruction.readCondition form (Text.trim condition) = .ok (form condition) := by
    intro form condition hform
    rw [hform.2, Instruction.readCondition, if_neg (by rw [List.isEmpty_iff]; exact hform.1)]
  cases i with
  | start => rfl
  | finish => rfl
  | merge => rfl
  | assign target expression =>
    obtain rfl := List.mem_singleton.mp hlabel
    have hphrase : Text.Phrase (Instruction.assigned target ++ expression) := by
      cases target with
      | none => exact h.1
      | some name => exact Text.Phrase.assigned (fun _ htarget => by cases htarget; exact h.1) h.2
    rw [Instruction.kind, Instruction.ofLabel_assignment, hphrase.trimmed, Instruction.readAssignment_spelled h]
  | input names =>
    obtain rfl := List.mem_singleton.mp hlabel
    have htexts : ∀ t ∈ names.map String.toList, t ≠ [] ∧ Text.trim t = t := by
      intro t ht
      obtain ⟨name, hname, rfl⟩ := List.mem_map.mp ht
      exact ⟨(h.2 name hname).1, (h.2 name hname).2.1⟩
    have hne := Text.intercalate_ne_nil ", ".toList (mt List.map_eq_nil_iff.mp h.1) fun t ht =>
      (htexts t ht).1
    have htrim := Text.trim_append (u := "I: ".toList) (Text.trim_intercalate ", ".toList htexts) hne (List.cons_ne_nil _ _)
      fun c hc => by
        cases hc
        rfl
    rw [Instruction.kind, Instruction.ofLabel_input, htrim, Instruction.readInput_spelled h.1 h.2]
  | output expression =>
    obtain rfl := List.mem_singleton.mp hlabel
    have hphrase : Text.Phrase ("O: ".toList ++ expression) := by
      refine Text.Phrase.append h (List.cons_ne_nil _ _) fun c hc => ?_
      cases hc
      rfl
    rw [Instruction.kind, Instruction.ofLabel_output, hphrase.trimmed, Instruction.readOutput_spelled h]
  | choose condition =>
    obtain rfl := List.mem_singleton.mp hlabel
    exact hcondition .choose h
  | whileLoop condition =>
    obtain rfl := List.mem_singleton.mp hlabel
    exact hcondition .whileLoop h
  | forLoop init condition increment => exact Instruction.readForLoop_spelled h hlabel
  | doWhile condition =>
    obtain rfl := List.mem_singleton.mp hlabel
    exact hcondition .doWhile h
  | call target function arguments =>
    obtain rfl := List.mem_singleton.mp hlabel
    have hphrase := Text.Phrase.assigned h.1 (Text.Phrase.application h.2.1 (", ".toList.intercalate arguments))
    rw [Instruction.kind, Instruction.ofLabel_functionCall, hphrase.trimmed, Instruction.readCall_spelled h]

/-- A counting loop with a separator in parentheses, one in a quotation, and no condition. -/
def Instruction.sparseLoop : Instruction := .forLoop "i = f((1; 2), \";)\")".toList [] "force = i".toList

theorem Block.instruction_labels_sparseLoop :
    Instruction.sparseLoop.WellFormed ∧
      "for (i = f((1; 2), \";)\"); ; force = i)".toList ∈ Instruction.sparseLoop.labels ∧
      (⟨4, .forLoop, String.ofList "for (i = f((1; 2), \";)\"); ; force = i)".toList⟩ : Block).instruction =
        .ok Instruction.sparseLoop := by
  have hwell : Instruction.sparseLoop.WellFormed := by decide
  have hlabel : "for (i = f((1; 2), \";)\"); ; force = i)".toList ∈ Instruction.sparseLoop.labels := by decide
  exact ⟨hwell, hlabel, Block.instruction_labels 4 hwell hlabel⟩

end Flowchart
