import Flowchart.Proofs.Code.FirstAssignments
import Flowchart.Proofs.Code.FlatTexts

/-!
# Braces and indentation

Code is written line by line: a line that opens a brace has it at its end, and a line that closes one has it at its
beginning.  Between the two, lines are indented by one more step.  This is so on every chart, wherever its edges lead
and wherever its code breaks off, as long as no label and no name brings in a brace or a line end of its own.

* `Text.nesting`, `Text.leadingClose` — how many braces are open behind a text, and what a line closes at its beginning.
* `Text.Indented` — a text from one depth of nesting to another in which every line is indented to its own.
* `Line.Leads`, `Line.Nested` — lines that lead from one depth to another; **`Line.Nested.indented`** is the invariant
  along the lines: as they are written, they are such a text.
* `Code.nested_lines`, `Graph.nested_body`, `Function.nested_code` — the lines of the parts of a program.
* **`Program.code_indented`** — the code for a program is well nested, and every line is indented to its depth.
-/

namespace Flowchart

/-! ### Indented texts -/

namespace Text

/-- How many more braces are opened than closed in a text. -/
def nesting (t : Text) : Int := t.count '\x7b' - t.count '\x7d'

/-- One brace is closed at the very beginning of a line, or none. -/
def leadingClose (line : Text) : Nat := if line.head? = some '\x7d' then 1 else 0

/-- A text that leads from one depth of nesting to another.  It never closes what was not opened, and every line in it
is indented by so many spaces for each brace that is open there; a line that begins with a closing brace stands
outside of what it closes. -/
structure Indented (width depth : Nat) (t : Text) (behind : Nat) : Prop where
  nonneg : ∀ before, before <+: t → 0 ≤ depth + nesting before
  leads : depth + nesting t = behind
  margin : ∀ before line after, t = before ++ (line ++ '\n' :: after) → (∀ c ∈ before.getLast?, c = '\n') →
    '\n' ∉ line → ∃ inside : Nat, depth + nesting before = inside + leadingClose (line.dropWhile (· == ' ')) ∧
      (line.takeWhile (· == ' ')).length = width * inside

variable {s t u rest before : Text}

theorem nesting_append (t u : Text) : nesting (t ++ u) = nesting t + nesting u := by
  unfold nesting
  rw [List.count_append, List.count_append]
  omega

theorem Flat.not_mem_newline (h : Flat t) : '\n' ∉ t := fun hc => (h _ hc).2.2 rfl

theorem Flat.count_open (h : Flat t) : t.count '\x7b' = 0 := List.count_eq_zero.mpr fun hc => (h _ hc).1 rfl

theorem Flat.count_close (h : Flat t) : t.count '\x7d' = 0 := List.count_eq_zero.mpr fun hc => (h _ hc).2.1 rfl

theorem Flat.leadingClose_eq (h : Flat t) : leadingClose t = 0 := if_neg fun hc => (h _ (List.mem_of_head? hc)).2.1 rfl

/-- A text is cut at its first line end in one way only. -/
theorem eq_of_line (hs : '\n' ∉ s) (ht : '\n' ∉ t) (h : s ++ '\n' :: u = t ++ '\n' :: rest) : s = t ∧ u = rest := by
  rcases List.append_eq_append_iff.mp h with ⟨between, rfl, hbetween⟩ | ⟨between, rfl, hbetween⟩
  · cases between with
    | nil => exact ⟨(List.append_nil s).symm, by cases hbetween; rfl⟩
    | cons c between =>
      cases hbetween
      exact absurd (List.mem_append_right s List.mem_cons_self) ht
  · cases between with
    | nil => exact ⟨List.append_nil t, by cases hbetween; rfl⟩
    | cons c between =>
      cases hbetween
      exact absurd (List.mem_append_right t List.mem_cons_self) hs

/-- What ends with a line end, and begins where a line begins, ends behind this line. -/
theorem exists_behind_line (hs : '\n' ∉ s) (h : before ++ u = s ++ '\n' :: rest) (hne : before ≠ [])
    (hlast : ∀ c ∈ before.getLast?, c = '\n') :
    ∃ later, before = s ++ '\n' :: later ∧ rest = later ++ u ∧ ∀ c ∈ later.getLast?, c = '\n' := by
  have hcut : before ++ u = (s ++ ['\n']) ++ rest := by rw [h, List.append_assoc]; rfl
  rcases List.append_eq_append_iff.mp hcut with ⟨between, hbetween, rfl⟩ | ⟨later, rfl, rfl⟩
  · cases between using List.reverseRecOn with
    | nil =>
      refine ⟨[], by simpa using hbetween.symm, rfl, by rintro c ⟨⟩⟩
    | append_singleton between c =>
      -- Nothing ends inside of a line, since there is no line end in it.
      rw [← List.append_assoc] at hbetween
      have hinside := (List.append_inj' hbetween rfl).1
      obtain ⟨d, hd⟩ := Option.ne_none_iff_exists'.mp (mt List.getLast?_eq_none_iff.mp hne)
      rw [hlast d hd] at hd
      exact absurd (hinside ▸ List.mem_append_left _ (List.mem_of_getLast? hd)) hs
  · refine ⟨later, by rw [List.append_assoc]; rfl, rfl, fun c hc => hlast c ?_⟩
    cases later with
    | nil => cases hc
    | cons d later => rwa [List.getLast?_append_of_ne_nil _ (List.cons_ne_nil d later)]

end Text

/-! ### Lines -/

/-- A line that leads from one depth of nesting to another: it may close one brace, at its beginning, and it is
indented to the depth behind that. -/
structure Line.Leads (depth : Nat) (l : Line) (behind : Nat) : Prop where
  whole : '\n' ∉ l.text
  flush : l.text.Flush
  depth_eq : depth = l.depth + Text.leadingClose l.text
  count_close : l.text.count '\x7d' = Text.leadingClose l.text
  behind_eq : behind = l.depth + l.text.count '\x7b'

/-- Lines that lead from one depth of nesting to another, one after the other. -/
inductive Line.Nested : Nat → List Line → Nat → Prop where
  | nil {depth : Nat} : Nested depth [] depth
  | cons {depth between behind : Nat} {l : Line} {rest : List Line} (first : l.Leads depth between)
    (others : Nested between rest behind) : Nested depth (l :: rest) behind

namespace Line

variable {depth between behind : Nat} {t : Text} {ls ls' : List Line}

/-- A line without braces. -/
theorem leads_level (hflat : t.Flat) (hflush : t.Flush) : Leads depth ⟨depth, t⟩ depth where
  whole := hflat.not_mem_newline
  flush := hflush
  depth_eq := by rw [hflat.leadingClose_eq, Nat.add_zero]
  count_close := by rw [hflat.leadingClose_eq, hflat.count_close]
  behind_eq := by rw [hflat.count_open, Nat.add_zero]

/-- A line that opens a brace at its end. -/
theorem leads_opening (hflat : t.Flat) (hflush : t.Flush) (hne : t ≠ []) :
    Leads depth ⟨depth, t ++ " \x7b".toList⟩ (depth + 1) := by
  have hclosing : Text.leadingClose (t ++ " \x7b".toList) = 0 := by
    unfold Text.leadingClose
    rw [List.head?_append_of_ne_nil _ hne]
    exact hflat.leadingClose_eq
  refine ⟨?_, hflush.append hne _, by rw [hclosing, Nat.add_zero], ?_, ?_⟩
  · intro hc
    rcases List.mem_append.mp hc with hc | hc
    · exact hflat.not_mem_newline hc
    · exact absurd hc (by decide)
  · rw [hclosing, List.count_append, hflat.count_close]
    rfl
  · rw [List.count_append, hflat.count_open, Nat.zero_add]
    rfl

/-- A line that closes a brace at its beginning. -/
theorem leads_closing (hflat : t.Flat) : Leads (depth + 1) ⟨depth, '\x7d' :: t⟩ depth where
  whole := by
    rw [List.mem_cons, not_or]
    exact ⟨by decide, hflat.not_mem_newline⟩
  flush := Text.flush_cons (by decide) _
  depth_eq := rfl
  count_close := by
    rw [List.count_cons_self, hflat.count_close]
    rfl
  behind_eq := by rw [List.count_cons_of_ne (by decide), hflat.count_open, Nat.add_zero]

/-- A line that closes a brace and opens another one. -/
theorem leads_turning : Leads (depth + 1) ⟨depth, "\x7d else \x7b".toList⟩ (depth + 1) where
  whole := show '\n' ∉ "\x7d else \x7b".toList by decide
  flush := Text.flush_cons (by decide) _
  depth_eq := rfl
  count_close := rfl
  behind_eq := rfl

namespace Nested

theorem append (h : Nested depth ls between) (h' : Nested between ls' behind) : Nested depth (ls ++ ls') behind := by
  induction h with
  | nil => exact h'
  | cons first _ ih => exact .cons first (ih h')

/-- Lines without braces at one depth. -/
theorem level (h : ∀ l ∈ ls, l.depth = depth ∧ l.text.Flat ∧ l.text.Flush) : Nested depth ls depth := by
  induction ls with
  | nil => exact .nil
  | cons l ls ih =>
    obtain ⟨⟨hdepth, hflat, hflush⟩, hrest⟩ := List.forall_mem_cons.mp h
    subst hdepth
    exact .cons (leads_level hflat hflush) (ih hrest)

theorem flatMap {α : Type} {f : α → List Line} {xs : List α} (h : ∀ x ∈ xs, Nested depth (f x) depth) :
    Nested depth (xs.flatMap f) depth := by
  induction xs with
  | nil => exact .nil
  | cons x xs ih =>
    obtain ⟨hx, hrest⟩ := List.forall_mem_cons.mp h
    exact hx.append (ih hrest)

/-- What stands between a line that opens a brace and one that closes it. -/
theorem enclosed {first last : Line} (hfirst : first.Leads depth (depth + 1)) (h : Nested (depth + 1) ls (depth + 1))
    (hlast : last.Leads (depth + 1) depth) (h' : Nested depth ls' behind) :
    Nested depth (first :: ls ++ last :: ls') behind :=
  .cons hfirst (h.append (.cons hlast h'))

end Nested

/-! ### Lines as they are written -/

section Writing

variable {width : Nat} {l : Line}

/-- Lines end with a line end. -/
theorem getLast?_flatMap_write (width : Nat) (h : ls ≠ []) : (ls.flatMap (write width)).getLast? = some '\n' := by
  cases ls using List.reverseRecOn with
  | nil => exact absurd rfl h
  | append_singleton ls l =>
    rw [List.flatMap_append, List.flatMap_singleton]
    unfold write
    rw [← List.append_assoc, List.getLast?_concat]

/-- What stands on a line in front of its end. -/
theorem write_eq (width : Nat) (l : Line) (rest : Text) :
    l.write width ++ rest = (List.replicate (l.depth * width) ' ' ++ l.text) ++ '\n' :: rest := by
  unfold write
  rw [List.append_assoc, List.singleton_append]

theorem Leads.nesting_write (h : l.Leads depth behind) (width : Nat) :
    depth + Text.nesting (l.write width) = behind := by
  have hopen : (l.write width).count '\x7b' = l.text.count '\x7b' := by
    simp [write, List.count_append, List.count_replicate]
  have hclose : (l.write width).count '\x7d' = l.text.count '\x7d' := by
    simp [write, List.count_append, List.count_replicate]
  have hdepth := h.depth_eq
  have hbehind := h.behind_eq
  have hclosed := h.count_close
  unfold Text.nesting
  omega

/-- Within a line at most the brace at its beginning is closed. -/
theorem Leads.nonneg (h : l.Leads depth behind) {before : Text} (hbefore : before <+: l.write width) :
    0 ≤ depth + Text.nesting before := by
  have hclose : (l.write width).count '\x7d' = l.text.count '\x7d' := by
    simp [write, List.count_append, List.count_replicate]
  have hle := hbefore.sublist.count_le '\x7d'
  have hdepth := h.depth_eq
  have hclosed := h.count_close
  unfold Text.nesting
  omega

/-- A line without its end has no line ends, and it begins with its indentation and no further space. -/
theorem Leads.margin (h : l.Leads depth behind) (width : Nat) :
    '\n' ∉ List.replicate (l.depth * width) ' ' ++ l.text ∧
      (List.replicate (l.depth * width) ' ' ++ l.text).takeWhile (· == ' ') = List.replicate (l.depth * width) ' ' ∧
      (List.replicate (l.depth * width) ' ' ++ l.text).dropWhile (· == ' ') = l.text := by
  have hspaces : ∀ c ∈ List.replicate (l.depth * width) ' ', (c == ' ') = true := by
    intro c hc
    rw [List.eq_of_mem_replicate hc]
    rfl
  refine ⟨fun hc => ?_, Text.split_run hspaces fun c hc => beq_false_of_ne (h.flush c hc)⟩
  rcases List.mem_append.mp hc with hc | hc
  · exact absurd (List.eq_of_mem_replicate hc) (by decide)
  · exact h.whole hc

/-- **Nested lines are an indented text** as they are written. -/
theorem Nested.indented (h : Nested depth ls behind) (width : Nat) :
    Text.Indented width depth (ls.flatMap (write width)) behind := by
  induction h with
  | nil =>
    refine ⟨fun before hbefore => ?_, Int.add_zero _, fun before line after h => ?_⟩
    · rw [List.prefix_nil.mp hbefore]
      exact Int.natCast_nonneg _
    · exact absurd h (by simp)
  | @cons depth between behind l rest first others ih =>
    have hwritten := first.nesting_write width
    obtain ⟨hwhole, htake, hdrop⟩ := first.margin width
    rw [List.flatMap_cons]
    refine ⟨fun before hbefore => ?_, ?_, fun before line after h hlast hline => ?_⟩
    · rcases List.prefix_or_prefix_of_prefix hbefore (List.prefix_append _ _) with hwithin | ⟨later, rfl⟩
      · exact first.nonneg hwithin
      · have hnonneg := ih.nonneg later ((List.prefix_append_right_inj _).mp hbefore)
        rw [Text.nesting_append]
        omega
    · have hleads := ih.leads
      rw [Text.nesting_append]
      omega
    · rw [write_eq] at h
      by_cases hne : before = []
      · -- This is the first line.
        subst hne
        obtain ⟨rfl, -⟩ := Text.eq_of_line hwhole hline h
        refine ⟨l.depth, ?_, by rw [htake, List.length_replicate, Nat.mul_comm]⟩
        have hdepth := first.depth_eq
        have hnone : Text.nesting [] = 0 := rfl
        rw [hdrop]
        omega
      · obtain ⟨later, rfl, hrest, hlater⟩ := Text.exists_behind_line hwhole h.symm hne hlast
        obtain ⟨inside, hinside, hmargin⟩ := ih.margin later line after hrest hlater hline
        refine ⟨inside, ?_, hmargin⟩
        rw [← write_eq, Text.nesting_append]
        omega

end Writing

end Line

/-! ### The lines of code -/

namespace Code

theorem leads_ifLine {condition : Text} (h : condition.Flat) (depth : Nat) :
    (ifLine depth condition).Leads depth (depth + 1) := by
  have hflat : Text.Flat ("if (".toList ++ condition ++ ")".toList) :=
    ((show Text.Flat "if (".toList by decide).append h).append (by decide)
  have hline : Line.Leads depth ⟨depth, "if (".toList ++ condition ++ ")".toList ++ " \x7b".toList⟩ (depth + 1) :=
    Line.leads_opening hflat (Text.flush_cons (by decide) _) (List.cons_ne_nil _ _)
  rwa [List.append_assoc] at hline

theorem leads_doLine (depth : Nat) : (doLine depth).Leads depth (depth + 1) :=
  Line.leads_opening (t := "do".toList) (by decide) (Text.flush_cons (by decide) _) (by decide)

theorem leads_closeLine (depth : Nat) : (closeLine depth).Leads (depth + 1) depth := Line.leads_closing Text.flat_nil

theorem leads_whileLine {condition : Text} (h : condition.Flat) (depth : Nat) :
    (whileLine depth condition).Leads (depth + 1) depth :=
  Line.leads_closing (((show Text.Flat " while (".toList by decide).append h).append (by decide))

/-- **The lines of flat code are nested**: they end at the depth at which they begin. -/
theorem nested_lines (c : Code) (h : c.Flat) (depth : Nat) : Line.Nested depth (c.lines depth) depth := by
  induction c generalizing depth with
  | done => exact .nil
  | plain id statements next ih =>
    obtain ⟨hstatements, hnext⟩ := h
    refine (Line.Nested.level fun l hl => ?_).append (ih hnext depth)
    obtain ⟨s, hs, rfl⟩ := List.mem_map.mp hl
    exact ⟨rfl, (hstatements s hs).flat, (hstatements s hs).flush⟩
  | ifThen id condition body next ihb ih =>
    obtain ⟨hcondition, hbody, hnext⟩ := h
    exact (ihb hbody (depth + 1)).enclosed (leads_ifLine hcondition depth) (leads_closeLine depth) (ih hnext depth)
  | ifElse id condition body other next ihb iho ih =>
    obtain ⟨hcondition, hbody, hother, hnext⟩ := h
    have hparts := ((ihb hbody (depth + 1)).append (.cons Line.leads_turning (iho hother (depth + 1)))).enclosed
      (leads_ifLine hcondition depth) (leads_closeLine depth) (ih hnext depth)
    rw [← List.cons_append] at hparts
    exact hparts
  | loop id header body next ihb ih =>
    obtain ⟨⟨hheader, hflush, hne⟩, hbody, hnext⟩ := h
    exact (ihb hbody (depth + 1)).enclosed (Line.leads_opening hheader hflush hne) (leads_closeLine depth)
      (ih hnext depth)
  | doLoop entry test condition body next ihb ih =>
    obtain ⟨hcondition, hbody, hnext⟩ := h
    exact (ihb hbody (depth + 1)).enclosed (leads_doLine depth) (leads_whileLine hcondition depth) (ih hnext depth)
  | emptyDo id condition next ih =>
    obtain ⟨hcondition, hnext⟩ := h
    exact Line.Nested.nil.enclosed (leads_doLine depth) (leads_whileLine hcondition depth) (ih hnext depth)

end Code

/-! ### The lines of a program -/

/-- The labels of a function, its name, the names of its parameters and its return variable are on one line each and
have no braces. -/
structure Function.Flat (f : Function) : Prop where
  name : Text.Flat f.name.toList
  parameters : ∀ p ∈ f.parameters, Text.Flat p.name.toList
  returnVariable : ∀ name ∈ f.returnVariable, Text.Flat name.toList
  body : f.body.Flat

/-- This holds of the main chart and of every function. -/
structure Program.Flat (p : Program) : Prop where
  main : p.main.Flat
  functions : ∀ f ∈ p.functions.toList, f.Flat

theorem DataType.flat_keyword (type : DataType) : Text.Flat type.keyword.toList := by cases type <;> decide

theorem DataType.flush_keyword (type : DataType) (t : Text) : Text.Flush (type.keyword.toList ++ t) := by
  cases type
  all_goals exact Text.flush_cons (by decide) _

namespace Graph

/-- The variables that are declared have names. -/
theorem isName_of_mem_locals (g : Graph) (functions : FunctionTable) (parameters : List Parameter) {name : String}
    (h : name ∈ Bindings.names (g.typing functions parameters).locals) : Text.isName name.toList = true :=
  ((g.mem_locals_iff functions parameters name).mp h).1

theorem legible_declaration (style : CodeStyle) {name : String} (hname : Text.isName name.toList = true)
    (type : DataType) : (style.declaration name type).Flat ∧ (style.declaration name type).Flush := by
  have hflat := Text.flat_of_isName hname
  have hkeyword : ∀ type : DataType,
      Text.Flat (type.keyword.toList ++ " ".toList ++ name.toList ++ ";".toList) ∧
      Text.Flush (type.keyword.toList ++ " ".toList ++ name.toList ++ ";".toList) := by
    intro type
    refine ⟨((type.flat_keyword.append (by decide)).append hflat).append (by decide), ?_⟩
    rw [List.append_assoc, List.append_assoc]
    exact type.flush_keyword _
  have hcapacity : Text.Flat (toString style.textCapacity).toList := by
    intro c hc
    have hmem : c ∈ Nat.toDigits 10 style.textCapacity := by simpa using hc
    have hdigit : c.isDigit = true := Nat.isDigit_of_mem_toDigits (by decide) (by decide) hmem
    refine ⟨?_, ?_, ?_⟩ <;> rintro rfl <;> exact absurd hdigit (by decide)
  cases type with
  | string =>
    refine ⟨((((show Text.Flat "char ".toList by decide).append hflat).append (by decide)).append hcapacity).append
      (by decide), ?_⟩
    exact Text.flush_cons (by decide) _
  | int => exact hkeyword .int
  | double => exact hkeyword .double
  | void => exact hkeyword .void

/-- **The lines of the code for a chart are nested.** -/
theorem nested_body {g : Graph} (hflat : g.Flat) (style : CodeStyle) (functions : FunctionTable)
    (parameters : List Parameter) : Line.Nested 1 (g.body style functions parameters) 1 := by
  refine (Line.Nested.level fun l hl => ?_).append (Code.nested_lines _ (flat_code hflat functions _) 1)
  obtain ⟨pair, hpair, rfl⟩ := List.mem_map.mp hl
  have hname := isName_of_mem_locals g functions parameters (List.mem_map_of_mem hpair)
  exact ⟨rfl, legible_declaration style hname pair.2⟩

end Graph

namespace Function

variable {f : Function}

theorem flat_signature (h : f.Flat) : f.signature.Flat := by
  have hparameters : Text.Flat (if f.parameters.isEmpty then "void".toList
      else ", ".toList.intercalate (f.parameters.map Parameter.declaration)) := by
    split
    · decide
    · refine Text.flat_intercalate (by decide) fun piece hpiece => ?_
      obtain ⟨p, hp, rfl⟩ := List.mem_map.mp hpiece
      exact (p.type.flat_keyword.append (by decide)).append (h.parameters p hp)
  exact ((((f.returnType.flat_keyword.append (by decide)).append h.name).append (by decide)).append
    hparameters).append (by decide)

theorem signature_ne_nil (f : Function) : f.signature ≠ [] := by
  unfold signature
  exact List.append_ne_nil_of_right_ne_nil _ (List.cons_ne_nil _ _)

theorem flush_signature (f : Function) : f.signature.Flush := by
  unfold signature
  dsimp only
  repeat rw [List.append_assoc]
  exact f.returnType.flush_keyword _

theorem nested_returnLine (h : f.Flat) : Line.Nested 1 f.returnLine 1 := by
  unfold returnLine
  split
  · next name hresult =>
    have hname : Text.Flat name.toList := by
      unfold resultVariable? at hresult
      split at hresult
      · exact h.returnVariable name hresult
      · cases hresult
    refine .cons (Line.leads_level ?_ ?_) .nil
    · exact ((show Text.Flat "return ".toList by decide).append hname).append (by decide)
    · exact Text.flush_cons (by decide) _
  · exact .nil

/-- **The lines of the code for a function are nested.** -/
theorem nested_code (h : f.Flat) (style : CodeStyle) (functions : FunctionTable) :
    Line.Nested 0 (f.code style functions) 0 := by
  unfold code
  split
  · have hinside := (Graph.nested_body h.body style functions f.parameters).append (nested_returnLine h)
    exact hinside.enclosed (Line.leads_opening (flat_signature h) f.flush_signature f.signature_ne_nil)
      (Code.leads_closeLine 0) .nil
  · refine .cons (Line.leads_level ?_ ?_) .nil
    · exact ((show Text.Flat "// Incomplete function '".toList by decide).append h.name).append (by decide)
    · exact Text.flush_cons (by decide) _

end Function

namespace Program

variable {p : Program}

theorem leads_emptyLine : emptyLine.Leads 0 0 := Line.leads_level Text.flat_nil (by rintro c ⟨⟩)

theorem nested_flushLines {texts : List String} (h : ∀ t ∈ texts, Text.Flat t.toList ∧ Text.Flush t.toList) :
    Line.Nested 0 (flushLines texts) 0 := by
  refine .level fun l hl => ?_
  obtain ⟨t, ht, rfl⟩ := List.mem_map.mp hl
  exact ⟨rfl, h t ht⟩

theorem nested_prototypes (h : p.Flat) : Line.Nested 0 p.prototypes 0 := by
  unfold prototypes
  refine Line.Nested.append (.level fun l hl => ?_) ?_
  · obtain ⟨f, hf, rfl⟩ := List.mem_map.mp hl
    have hf' := h.functions f (List.mem_filter.mp hf).1
    exact ⟨rfl, (Function.flat_signature hf').append (by decide), f.flush_signature.append f.signature_ne_nil _⟩
  · split
    · exact .nil
    · exact .cons leads_emptyLine .nil

theorem nested_functionLines (h : p.Flat) (style : CodeStyle) : Line.Nested 0 (p.functionLines style) 0 :=
  .flatMap fun f hf => (Function.nested_code (h.functions f hf) style p.functions).append (.cons leads_emptyLine .nil)

theorem nested_mainLines (h : p.Flat) (style : CodeStyle) : Line.Nested 0 (p.mainLines style) 0 := by
  have hreturn : Line.Leads 1 ⟨1, "return 0;".toList⟩ 1 := Line.leads_level (by decide) (Text.flush_cons (by decide) _)
  have hmain : Line.Leads 0 ⟨0, "int main() \x7b".toList⟩ 1 :=
    Line.leads_opening (t := "int main()".toList) (by decide) (Text.flush_cons (by decide) _) (by decide)
  exact .cons hmain ((Graph.nested_body h.main style p.functions []).append
    (.cons hreturn (.cons (Code.leads_closeLine 0) .nil)))

/-- The lines of the code for a program begin and end outside of all braces. -/
theorem nested_codeLines (h : p.Flat) (style : CodeStyle) : Line.Nested 0 (p.codeLines style) 0 := by
  unfold codeLines
  split
  · have hheaders : Line.Nested 0
        (flushLines ["#include <stdio.h>", "#include <stdlib.h>", "#include <string.h>", ""]) 0 :=
      nested_flushLines (by decide)
    refine ((hheaders.append ?_).append (nested_functionLines h style)).append (nested_mainLines h style)
    split
    · exact nested_prototypes h
    · exact .nil
  · exact nested_flushLines (by decide)

theorem codeLines_ne_nil (p : Program) (style : CodeStyle) : p.codeLines style ≠ [] := by
  unfold codeLines
  split
  · exact List.append_ne_nil_of_right_ne_nil _ (List.cons_ne_nil _ _)
  · exact List.cons_ne_nil _ _

/-- **The code for a program is well nested and indented.**  The main chart and the functions may have edges of any
sort; their labels and names are to be without braces and line ends.  Then nothing is closed in the code that was not
opened, and everything that was opened is closed at its end.  Every line ends with a line end, and it begins with one
indentation for each brace that is open in front of it, except for the brace that the line closes at its beginning. -/
theorem code_indented (p : Program) (hp : p.Flat) (style : CodeStyle) :
    (∀ before, before <+: (p.code style).toList → before.count '\x7d' ≤ before.count '\x7b') ∧
    (p.code style).toList.count '\x7d' = (p.code style).toList.count '\x7b' ∧
    (p.code style).toList.getLast? = some '\n' ∧
    ∀ before line after, (p.code style).toList = before ++ (line ++ '\n' :: after) →
      (∀ c ∈ before.getLast?, c = '\n') → '\n' ∉ line →
      ∃ depth, before.count '\x7b' =
          before.count '\x7d' + depth + Text.leadingClose (line.dropWhile (· == ' ')) ∧
        (line.takeWhile (· == ' ')).length = style.indentWidth * depth := by
  have htext : (p.code style).toList = (p.codeLines style).flatMap (Line.write style.indentWidth) :=
    String.toList_ofList
  have hindented := (nested_codeLines hp style).indented style.indentWidth
  rw [← htext] at hindented
  refine ⟨fun before hbefore => ?_, ?_, ?_, fun before line after h hlast hline => ?_⟩
  · have hnonneg := hindented.nonneg before hbefore
    unfold Text.nesting at hnonneg
    omega
  · have hleads := hindented.leads
    unfold Text.nesting at hleads
    omega
  · rw [htext]
    exact Line.getLast?_flatMap_write _ (p.codeLines_ne_nil style)
  · obtain ⟨inside, hinside, hmargin⟩ := hindented.margin before line after h hlast hline
    refine ⟨inside, ?_, hmargin⟩
    unfold Text.nesting at hinside
    omega

/-- A loop around a choice, of which one branch leads to a block that is not there and the other one back into the loop,
and a function with a parameter. -/
def halving : Program where
  main := {
    blocks := [⟨0, .start, ""⟩, ⟨1, .input, "n"⟩, ⟨2, .loop, "n > 1?"⟩, ⟨3, .conditional, "n % 2 = 0"⟩,
      ⟨4, .functionCall, "n = half(n)"⟩, ⟨5, .finish, ""⟩]
    edges := [⟨0, 1, none, none⟩, ⟨1, 2, none, none⟩, ⟨2, 3, none, some .whenTrue⟩, ⟨2, 5, none, some .whenFalse⟩,
      ⟨3, 4, none, some .whenTrue⟩, ⟨3, 7, none, some .whenFalse⟩, ⟨4, 2, none, none⟩] }
  functions := .ofList [{
    name := "half", parameters := [⟨"a", .int⟩], returnType := .int, returnVariable := some "a"
    body := {
      blocks := [⟨0, .start, ""⟩, ⟨1, .assignment, "a = a / 2"⟩, ⟨2, .finish, ""⟩]
      edges := [⟨0, 1, none, none⟩, ⟨1, 2, none, none⟩] } }]

theorem flat_halving : halving.Flat where
  main := by decide
  functions := by
    intro f hf
    rw [List.mem_singleton.mp hf]
    exact ⟨by decide, by decide, by decide, by decide⟩

/-- The code for it, with indentations of two spaces. -/
theorem code_indented_halving : halving.Flat ∧
    (halving.mainLines { indentWidth := 2 }).flatMap (Line.write 2) =
      ("int main() \x7b\n  int n;\n  scanf(\"%d\", &n);\n  while (n > 1) \x7b\n    if (n % 2 == 0) \x7b\n" ++
        "      n = half(n);\n    \x7d else \x7b\n    \x7d\n  \x7d\n  return 0;\n\x7d\n").toList ∧
    (halving.code { indentWidth := 2 }).toList.count '\x7d' = (halving.code { indentWidth := 2 }).toList.count '\x7b' ∧
    ∀ before line after, (halving.code { indentWidth := 2 }).toList = before ++ (line ++ '\n' :: after) →
      (∀ c ∈ before.getLast?, c = '\n') → '\n' ∉ line →
      ∃ depth, before.count '\x7b' =
          before.count '\x7d' + depth + Text.leadingClose (line.dropWhile (· == ' ')) ∧
        (line.takeWhile (· == ' ')).length = 2 * depth := by
  obtain ⟨-, hclosed, -, hmargins⟩ := code_indented halving flat_halving { indentWidth := 2 }
  exact ⟨flat_halving, by decide +kernel, hclosed, hmargins⟩

end Program

end Flowchart
