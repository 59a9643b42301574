import Flowchart.Instruction

/-!
# The labels of choices and loops

* `Instruction.kind` — the kind of block on which an instruction stands; `Block.kind_of_instruction` says that a
  label is read as an instruction of that kind.
* `Instruction.condition`, `Instruction.init`, `Instruction.increment` — the parts of the labels of choices and
  loops.  A loop that only tests has empty clauses.
-/

namespace Flowchart

namespace Instruction

/-- The kind of block on which an instruction stands. -/
def kind : Instruction → BlockKind
  | start => .start
  | finish => .finish
  | merge => .merge
  | assign _ _ => .assignment
  | input _ => .input
  | output _ => .output
  | choose _ => .conditional
  | whileLoop _ => .loop
  | forLoop _ _ _ => .forLoop
  | doWhile _ => .doWhile
  | call _ _ _ => .functionCall

/-- The condition of a choice or a loop. -/
def condition : Instruction → Text
  | choose condition | whileLoop condition | doWhile condition => condition
  | forLoop _ condition _ => condition
  | _ => []

/-- What a counting loop does before its first test. -/
def init : Instruction → Text
  | forLoop init _ _ => init
  | _ => []

/-- What a counting loop does after every run of its body. -/
def increment : Instruction → Text
  | forLoop _ _ increment => increment
  | _ => []

end Instruction

section Readers

variable (t : Text)

theorem Instruction.ofLabel_assignment : ofLabel .assignment t = readAssignment (Text.trim t) := rfl

theorem Instruction.ofLabel_input : ofLabel .input t = readInput (Text.trim t) := rfl

theorem Instruction.ofLabel_output : ofLabel .output t = readOutput (Text.trim t) := rfl

theorem Instruction.ofLabel_forLoop : ofLabel .forLoop t = readForLoop (Text.trim t) := rfl

theorem Instruction.ofLabel_functionCall : ofLabel .functionCall t = readCall (Text.trim t) := rfl

end Readers

/-- A label is read as an instruction of the kind of its block. -/
theorem Instruction.kind_of_ofLabel {kind : BlockKind} {label : Text} {i : Instruction}
    (h : Instruction.ofLabel kind label = .ok i) : i.kind = kind := by
  have hcondition : ∀ {form : Text → Instruction} {t : Text}, readCondition form t = .ok i → i = form t := by
    intro form t ht
    unfold readCondition at ht
    split at ht
    · cases ht
    · cases ht
      rfl
  unfold Instruction.ofLabel at h
  cases kind with
  | start =>
    cases h
    rfl
  | finish =>
    cases h
    rfl
  | merge =>
    cases h
    rfl
  | assignment =>
    simp only [readAssignment] at h
    split at h
    · cases h
    · split at h <;> cases h <;> rfl
  | input =>
    simp only [readInput] at h
    split at h <;> cases h
    rfl
  | output =>
    simp only [readOutput] at h
    split at h <;> cases h
    rfl
  | conditional =>
    rw [hcondition h]
    rfl
  | loop =>
    rw [hcondition h]
    rfl
  | doWhile =>
    rw [hcondition h]
    rfl
  | forLoop =>
    simp only [readForLoop] at h
    split at h <;> cases h
    rfl
  | functionCall =>
    simp only [readCall] at h
    split at h <;> cases h
    rfl

/-- The instruction on a block is what its label is read as. -/
theorem Block.instruction_eq_ok_iff {b : Block} {i : Instruction} :
    b.instruction = .ok i ↔ Instruction.ofLabel b.kind b.label.toList = .ok i := by
  unfold Block.instruction
  cases Instruction.ofLabel b.kind b.label.toList with
  | ok j => simp only [Except.ok.injEq]
  | error reason => simp only [reduceCtorEq]

theorem Block.kind_of_instruction {b : Block} {i : Instruction} (h : b.instruction = .ok i) : i.kind = b.kind :=
  Instruction.kind_of_ofLabel (Block.instruction_eq_ok_iff.mp h)

/-- A label that cannot be read is a fault of its own. -/
theorem Block.instruction_error_eq {b : Block} {f : Fault} (h : b.instruction = .error f) :
    ∃ reason, f = .invalidLabel b.kind b.label reason := by
  unfold Block.instruction at h
  split at h
  · cases h
  · next reason _ =>
    cases h
    exact ⟨reason, rfl⟩

theorem Block.instruction_error {b : Block} {f : Fault} (h : b.instruction = .error f) : f ≠ .cancelled := by
  obtain ⟨reason, rfl⟩ := Block.instruction_error_eq h
  exact Fault.noConfusion

end Flowchart
