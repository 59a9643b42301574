import Flowchart.Proofs.Callees
import Flowchart.Proofs.Condition.Comparisons
import Flowchart.Proofs.Script.Blocks
import Flowchart.Proofs.Text.Margins

/-!
# Calls as statements

A call can stand on a block for calls, and it can stand on a block for assignments.  The first one takes the call apart
when it reads its label, and evaluates the arguments itself.  The second one keeps the text of the call as an expression,
and evaluates it as any other expression.  Both find the same name and the same arguments, and come to the same end.

* `Literal.literal?_of_call` — no call is a literal, so it is as a call that a text is read which is one.
* `evaluate_call` — the value of such a text: its arguments are evaluated from left to right, and the function is called.
* `Instruction.readAssignment_of_readCall` — a label that is read as a call is read as an assignment of the same text.
* **`Machine.execute_asAssignment`** — both blocks do the same.
-/

namespace Flowchart

/-! ### Texts that are calls -/

/-- No call is a literal. -/
theorem Literal.literal?_of_call {t : Text} {c : Literal.Call} (h : call? t = some c) :
    Expression.literal? t = none := by
  obtain ⟨hname, blanks, inner, -, rfl, -⟩ := eq_of_call h
  cases hc : c.name with
  | nil =>
    rw [hc] at hname
    cases hname
  | cons d name =>
    rw [hc] at hname
    simp only [Text.isName, Bool.and_eq_true] at hname
    exact Expression.literal?_of_isNameStart hname.1 _

/-- Texts are evaluated one after the other as the expressions are that are read from them. -/
theorem Machine.evaluateEach_eq (env : Environment Machine) (ts : List Text) :
    evaluateEach env ts = Expression.evalAll env (ts.map Expression.read) := by
  induction ts with
  | nil =>
    rw [List.map_nil, Expression.evalAll]
    rfl
  | cons t rest ih =>
    rw [List.map_cons, Expression.evalAll, ← ih]
    rfl

/-- **The value of a call**: the arguments are evaluated first, and then the function is called with their values. -/
theorem evaluate_call (env : Environment Machine) {t : Text} {c : Literal.Call} (htrim : Text.trim t = t)
    (h : Literal.call? t = some c) :
    evaluate env t = (do
      let values ← Machine.evaluateEach env c.arguments
      env.call (String.ofList c.name) values) := by
  unfold evaluate
  rw [Expression.read_eq, htrim, Literal.literal?_of_call h, h, Machine.evaluateEach_eq]
  dsimp only
  rw [Expression.eval]

/-! ### Labels that are calls -/

/-- A statement has no margins. -/
theorem trim_withoutTerminator (t : Text) : Text.trim (withoutTerminator t) = withoutTerminator t :=
  Text.trim_trimEnd_of_prefix (List.rdropWhile_prefix (· == ';') (Text.trim t))

/-- The expression of an assignment has no margins. -/
theorem trim_expression {t : Text} {a : Assignment} (h : assignment? t = some a) :
    Text.trim a.expression = a.expression := by
  obtain ⟨left, right, -, -, hright, -⟩ := eq_of_assignment h
  rw [hright, Text.trim_trim]

namespace Instruction

/-- **A label that is read as a call is read as an assignment** of the text of the call, to the same variable. -/
theorem readAssignment_of_readCall {t : Text} {i : Instruction} (h : readCall t = .ok i) :
    ∃ target text c, Text.trim text = text ∧ Literal.call? text = some c ∧
      i = .call target (String.ofList c.name) c.arguments ∧ readAssignment t = .ok (.assign target text) := by
  unfold readCall at h
  dsimp only at h
  unfold readAssignment
  dsimp only
  cases ha : assignment? (withoutTerminator t) with
  | some a =>
    rw [ha] at h
    dsimp only at h
    have hne : (withoutTerminator t).isEmpty = false := by
      rw [List.isEmpty_eq_false_iff]
      intro hnil
      rw [hnil] at ha
      cases ha
    cases hc : Literal.call? a.expression with
    | none =>
      rw [hc] at h
      cases h
    | some c =>
      rw [hc] at h
      cases h
      exact ⟨_, _, c, trim_expression ha, hc, rfl, by rw [hne]; rfl⟩
  | none =>
    rw [ha] at h
    dsimp only at h
    cases hc : Literal.call? (withoutTerminator t) with
    | none =>
      rw [hc] at h
      cases h
    | some c =>
      rw [hc] at h
      cases h
      have hne : (withoutTerminator t).isEmpty = false := by
        rw [List.isEmpty_eq_false_iff]
        intro hnil
        rw [hnil] at hc
        cases hc
      exact ⟨none, _, c, trim_withoutTerminator t, hc, rfl, by rw [hne]; rfl⟩

end Instruction

namespace Machine

/-- To carry out a call is to assign the value of its text. -/
theorem perform_call (env : Environment Machine) (g : Graph) (id : BlockId) (target : Option String) {text : Text}
    {c : Literal.Call} (htrim : Text.trim text = text) (hc : Literal.call? text = some c) :
    perform env g id (.call target (String.ofList c.name) c.arguments) = perform env g id (.assign target text) := by
  show (do
      let values ← evaluateEach env c.arguments
      let v ← env.call (String.ofList c.name) values
      bind? target v
      pure (Flow.next (g.successor? id))) = (do
      let v ← evaluate env text
      bind? target v
      pure (Flow.next (g.successor? id)))
  rw [evaluate_call env htrim hc, bind_assoc]

/-- **Two ways to write a call.**  A block for calls does what the block for assignments does that bears the same number
and the same label: in every state both come to the same end, with the same flow of control or the same fault, and leave
the same state. -/
theorem execute_asAssignment (p : Program) (limit allowance room : Nat) (g : Graph) {b : Block} {i : Instruction}
    (hkind : b.kind = .functionCall) (hlabel : b.instruction = .ok i) :
    execute (environment (call p limit allowance room)) g { b with kind := .assignment } =
      execute (environment (call p limit allowance room)) g b := by
  have hread := Block.instruction_eq_ok_iff.mp hlabel
  rw [hkind, Instruction.ofLabel_functionCall] at hread
  obtain ⟨target, text, c, htrim, hc, rfl, hassignment⟩ := Instruction.readAssignment_of_readCall hread
  have hother : ({ b with kind := .assignment } : Block).instruction = .ok (.assign target text) :=
    Block.instruction_eq_ok_iff.mpr ((Instruction.ofLabel_assignment _).trans hassignment)
  rw [execute_of_ok hlabel, execute_of_ok hother, perform_call _ _ _ _ htrim hc]

/-- A call inside a call, with blanks and semicolons around it. -/
def nestedCall : Block := ⟨1, .functionCall, " r = outer ( inner(2),\"a,b\" ) ; "⟩

theorem execute_asAssignment_nestedCall :
    nestedCall.kind = .functionCall ∧
      nestedCall.instruction =
        .ok (.call (some "r") "outer" ["inner(2)".toList, "\"a,b\"".toList]) ∧
      execute (environment (call {} 9 9 9)) {} { nestedCall with kind := .assignment } =
        execute (environment (call {} 9 9 9)) {} nestedCall := by
  have hlabel : nestedCall.instruction =
      .ok (.call (some "r") "outer" ["inner(2)".toList, "\"a,b\"".toList]) := by decide +kernel
  exact ⟨rfl, hlabel, execute_asAssignment {} 9 9 9 {} rfl hlabel⟩

end Machine

end Flowchart
