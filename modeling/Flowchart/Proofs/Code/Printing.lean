import Flowchart.Code.Recovery
import Flowchart.Machine.Execution
import Flowchart.Proofs.Text.Quotations

/-!
# Printed literals

A string literal on an output block is printed by a run as it is.  In the code for the block it stands as a format, so
that C reads it once more: escape sequences are resolved, the string ends at the first null character, and `printf`
takes percent signs for conversions.

Only what such calls need of C is here.  Escape sequences with numbers are not read, and there are no trigraphs.

* `C.literal?` — the characters of a string literal, up to its closing quotation mark.
* `C.string` — a string ends at its first null character.
* `C.formatted?` — what `printf` prints for a format without further arguments.  Nothing is known of a conversion that
  would need one.
* `C.printed?` — what a call of `printf` with a literal prints.
* `C.length_formatted` — every percent sign that is printed was written twice.
* `C.printed?_printText` — what the statement for a fixed text prints.
* **`output_inQuotes`** — literals that are printed by a run, and by its code.
-/

namespace Flowchart

namespace C

/-! ### Literals and formats -/

/-- The character of a simple escape sequence. -/
def escape? : Char → Option Char
  | '"' => some '"'
  | '\'' => some '\''
  | '?' => some '?'
  | '\\' => some '\\'
  | 'a' => some '\x07'
  | 'b' => some '\x08'
  | 't' => some '\t'
  | 'n' => some '\n'
  | 'v' => some '\x0b'
  | 'f' => some '\x0c'
  | 'r' => some '\r'
  | _ => none

/-- The characters of a string literal behind its opening quotation mark, and what follows the closing one.  A literal
does not go over a line end. -/
def literal? : Text → Option (Text × Text)
  | [] => none
  | c :: t =>
    if c = '"' then some ([], t)
    else if c = '\n' then none
    else if c = '\\' then
      match t with
      | [] => none
      | d :: t => (escape? d).bind fun e => (literal? t).map fun p => (e :: p.1, p.2)
    else (literal? t).map fun p => (c :: p.1, p.2)

/-- The string that an array of characters holds. -/
def string (t : Text) : Text := t.takeWhile (· != '\x00')

/-- What is printed for a format without further arguments. -/
def formatted? : Text → Option Text
  | [] => some []
  | c :: t =>
    if c = '%' then
      match t with
      | '%' :: t => (formatted? t).map ('%' :: ·)
      | _ => none
    else (formatted? t).map (c :: ·)

/-- What a call of `printf` with a literal and no further arguments prints. -/
def printed? (call : Text) : Option Text :=
  (Text.after? "printf(\"".toList call).bind fun t =>
    (literal? t).bind fun p => if p.2 = ");".toList then formatted? (string p.1) else none

variable {s t u : Text}

/-- A literal without escape sequences, in front of any text. -/
theorem literal?_append (h : ∀ c ∈ s, c ≠ '"' ∧ c ≠ '\n' ∧ c ≠ '\\') (t : Text) :
    literal? (s ++ t) = (literal? t).map fun p => (s ++ p.1, p.2) := by
  induction s with
  | nil => simp
  | cons c s ih =>
    obtain ⟨hquote, hline, hescape⟩ := h c List.mem_cons_self
    rw [List.cons_append, literal?.eq_def]
    dsimp only
    rw [if_neg hquote, if_neg hline, if_neg hescape, ih fun d hd => h d (List.mem_cons_of_mem c hd), Option.map_map]
    rfl

/-- A text without percent signs is printed as it is. -/
theorem formatted?_eq_self (h : '%' ∉ t) : formatted? t = some t := by
  induction t with
  | nil => rfl
  | cons c t ih =>
    rw [List.mem_cons, not_or] at h
    rw [formatted?.eq_def]
    dsimp only
    rw [if_neg (Ne.symm h.1), ih h.2]
    rfl

/-- **Every percent sign that is printed was written twice.** -/
theorem length_formatted (h : formatted? t = some u) : t.length = u.length + u.count '%' := by
  fun_induction formatted? t generalizing u with
  | case1 =>
    cases h
    rfl
  | case2 t ih =>
    obtain ⟨v, hv, rfl⟩ := Option.map_eq_some_iff.mp h
    rw [List.count_cons_self, List.length_cons, List.length_cons, List.length_cons, ih hv]
    omega
  | case3 => cases h
  | case4 c t hc ih =>
    obtain ⟨v, hv, rfl⟩ := Option.map_eq_some_iff.mp h
    rw [List.count_cons_of_ne hc, List.length_cons, List.length_cons, ih hv]
    omega

/-- A text is printed as it is if it has no percent signs and is a string as a whole, and not otherwise. -/
theorem formatted?_string_iff : formatted? (string t) = some t ↔ '%' ∉ t ∧ '\x00' ∉ t := by
  constructor
  · intro h
    have hlength := length_formatted h
    have hinitial : string t <+: t := List.takeWhile_prefix _
    have hle := hinitial.length_le
    have hwhole : string t = t := hinitial.eq_of_length (by omega)
    refine ⟨List.count_eq_zero.mp (by omega), fun hnull => ?_⟩
    have hne := List.mem_takeWhile_imp (show '\x00' ∈ string t by rw [hwhole]; exact hnull)
    exact absurd hne (by decide)
  · rintro ⟨hpercent, hnull⟩
    have hwhole : string t = t := by
      refine List.takeWhile_eq_self_iff.mpr fun c hc => ?_
      rw [bne_iff_ne]
      rintro rfl
      exact hnull hc
    rw [hwhole, formatted?_eq_self hpercent]

/-- **What the statement for a fixed text prints**: the text as a format, with a line end behind it. -/
theorem printed?_printText (h : ∀ c ∈ s, c ≠ '"' ∧ c ≠ '\n' ∧ c ≠ '\\') :
    printed? (Statement.printText s).text = formatted? (string (s ++ ['\n'])) := by
  have hcall : (Statement.printText s).text = "printf(\"".toList ++ (s ++ '\\' :: 'n' :: '"' :: ");".toList) := by
    have hend : '\\' :: 'n' :: '"' :: ");".toList = "\\n\"".toList ++ ");".toList := rfl
    show Statement.printf s [] = _
    unfold Statement.printf
    rw [hend, List.append_nil, List.append_assoc]
    exact List.append_assoc _ _ _
  have hliteral : literal? (s ++ '\\' :: 'n' :: '"' :: ");".toList) = some (s ++ ['\n'], ");".toList) := by
    rw [literal?_append h]
    rfl
  rw [printed?, Text.after?_eq_some_iff.mpr hcall, Option.bind_some, hliteral, Option.bind_some]
  exact if_pos rfl

end C

/-! ### Literals on output blocks -/

/-- The code for a literal prints it as a fixed text. -/
theorem Recovery.statements_inQuotes (r : Recovery) (s : Text) :
    r.statements (.output (Text.inQuotes s)) = [.printText s] := by
  show [r.printStatement (Text.inQuotes s)] = _
  rw [printStatement, Text.quoted?_inQuotes]

/-- A run prints a literal and a line end. -/
theorem Machine.execute_inQuotes (env : Environment Machine) (g : Graph) {b : Block} {s : Text} (m : Machine)
    (hb : b.instruction = .ok (.output (Text.inQuotes s))) :
    execute env g b m =
      .done (.next (g.successor? b.id)) { m with output := m.output ++ String.ofList (s ++ ['\n']) } := by
  have hvalue := evaluate_inQuotes env m s
  have htext : (m.output ++ String.ofList s).push '\n' = m.output ++ String.ofList (s ++ ['\n']) := by
    rw [String.ofList_append, ← String.append_assoc]
    rfl
  unfold execute
  rw [hb]
  show Machine.perform env g b.id (.output (Text.inQuotes s)) m = _
  simp only [Machine.perform, Action.bind_apply, hvalue, Outcome.andThen, print, Action.update_apply, Action.pure_apply,
    ← htext, Value.display, Value.displayText, String.toList_ofList]

/-- **Printed literals.**  Let a string literal without quotation marks, backslashes and line ends be the expression on
an output block.  A run of the block prints what is in the literal and a line end, and does nothing else.  The code for
the block is a call of `printf`, and this prints the same exactly if there is no percent sign and no null character in
the literal. -/
theorem output_inQuotes (r : Recovery) (env : Environment Machine) (g : Graph) (b : Block) (s : Text)
    (hb : b.instruction = .ok (.output (Text.inQuotes s))) (hs : ∀ c ∈ s, c ≠ '"' ∧ c ≠ '\n' ∧ c ≠ '\\') :
    (∀ m, Machine.execute env g b m =
        .done (.next (g.successor? b.id)) { m with output := m.output ++ String.ofList (s ++ ['\n']) }) ∧
      ∃ call, (r.statements (.output (Text.inQuotes s))).map Statement.text = [call] ∧
        (C.printed? call = some (s ++ ['\n']) ↔ '%' ∉ s ∧ '\x00' ∉ s) := by
  refine ⟨fun m => Machine.execute_inQuotes env g m hb, (Statement.printText s).text, ?_, ?_⟩
  · rw [r.statements_inQuotes]
    rfl
  · rw [C.printed?_printText hs, C.formatted?_string_iff]
    simp

/-- A chart that prints one literal. -/
def literalChart (label : String) : Graph where
  blocks := [⟨0, .start, ""⟩, ⟨1, .output, label⟩, ⟨2, .finish, ""⟩]
  edges := [{ source := 0, target := 1 }, { source := 1, target := 2 }]

/-- A literal with an apostrophe, in front of a semicolon. -/
theorem output_inQuotes_apostrophe :
    let g := literalChart "\"It's me\";"
    let env := Machine.environment fun name _ => .fail (.unknownFunction name)
    Machine.execute env g ⟨1, .output, "\"It's me\";"⟩ {} = .done (.next (some 2)) { output := "It's me\n" } ∧
      ∃ call, ((g.recovery {} {}).statements (.output (Text.inQuotes "It's me".toList))).map Statement.text = [call] ∧
        C.printed? call = some ("It's me".toList ++ ['\n']) := by
  intro g env
  have hlabel : (⟨1, .output, "\"It's me\";"⟩ : Block).instruction =
      .ok (.output (Text.inQuotes "It's me".toList)) := rfl
  have hplain : ∀ c ∈ "It's me".toList, c ≠ '"' ∧ c ≠ '\n' ∧ c ≠ '\\' := by simp
  obtain ⟨hrun, call, hcall, hprinted⟩ := output_inQuotes (g.recovery {} {}) env g _ _ hlabel hplain
  exact ⟨hrun {}, call, hcall, hprinted.mpr ⟨by decide, by decide⟩⟩

/-- Two percent signs are printed by a run, and one by the code. -/
theorem output_percent :
    let g := literalChart "\"50%% off\""
    let env := Machine.environment fun name _ => .fail (.unknownFunction name)
    Machine.execute env g ⟨1, .output, "\"50%% off\""⟩ {} = .done (.next (some 2)) { output := "50%% off\n" } ∧
      ((g.recovery {} {}).statements (.output "\"50%% off\"".toList)).map Statement.text =
        ["printf(\"50%% off\\n\");".toList] ∧
      C.printed? "printf(\"50%% off\\n\");".toList = some "50% off\n".toList := by
  intro g env
  have hrun := Machine.execute_inQuotes env g (b := ⟨1, .output, "\"50%% off\""⟩) (s := "50%% off".toList) {}
    (by decide +kernel)
  exact ⟨hrun, by decide +kernel, by decide +kernel⟩

end Flowchart
