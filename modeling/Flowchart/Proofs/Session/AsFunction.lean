import Flowchart.Proofs.Callees
import Flowchart.Proofs.Condition.Scanning
import Flowchart.Proofs.FunctionTable
import Flowchart.Proofs.Isolation
import Flowchart.Proofs.Session.Loops

/-!
# A chart as a program and as a function

A chart can be the main chart of a program, and it can be the body of a function that another chart does nothing but
call.  Its variables are globals in the one case and stand in the frame of the function in the other.  If it does not
call the function itself, no function is called in either case, and both runs come to the same: the same output, the
same error or none, and the same variables at the end.

* `Machine.Framed` — a machine that has in a frame what another one has as globals; `Machine.runBody_framed`.
* `Machine.withoutFunctions` — an environment in which no function is known.
* `Machine.execute_unmentioned` — blocks on which the only function is not named do what they do there.
* `Graph.JustCalls` — a chart that calls a function and does nothing else; `Instruction.ofLabel_call` reads the label.
* `Session.asBody_eq_soloOutcome`, `Session.soloOutcome_alike`, `Session.asBody_of_justCalls` — the main chart, the body
  of the function and the chart that calls it do what the chart does by itself.
* **`Session.main_agrees_with_body`** — the two runs.
-/

namespace Flowchart

/-! ### Outcomes that say the same -/

/-- Of two outcomes that say the same, one is finished as the other is. -/
theorem Outcome.Alike.finishes {σ τ α : Type} {R : σ → τ → Prop} {o : Outcome σ α} {o' : Outcome τ α} {s : σ}
    {fault : Option Fault} (h : o.Alike R o') (hs : o.Finishes s fault) : ∃ t, R s t ∧ o'.Finishes t fault := by
  cases hs with
  | done =>
    cases o' with
    | done b t => exact ⟨t, h.2, .done⟩
    | _ => cases h
  | failed =>
    cases o' with
    | failed g t =>
      obtain ⟨rfl, ht⟩ := h
      exact ⟨t, ht, .failed⟩
    | _ => cases h

theorem Outcome.Finishes.eq_done {σ : Type} {o : Outcome σ Unit} {s : σ} (h : o.Finishes s none) : o = .done () s := by
  cases h
  rfl

theorem Outcome.Alike.swap {σ τ α : Type} {R : σ → τ → Prop} {o : Outcome σ α} {o' : Outcome τ α} (h : o.Alike R o') :
    o'.Alike (fun t s => R s t) o := by
  cases o with
  | done a s =>
    cases o' with
    | done b t => exact ⟨h.1.symm, h.2⟩
    | _ => cases h
  | failed f s =>
    cases o' with
    | failed g t => exact ⟨h.1.symm, h.2⟩
    | _ => cases h
  | unfinished =>
    cases o' with
    | unfinished => trivial
    | _ => cases h

namespace Machine

/-! ### Variables in a frame -/

/-- The machine with its globals in the frame of a function. -/
def inFrame (name : String) (m : Machine) : Machine :=
  { m with scope := { frames := [{ function := name, locals := m.scope.globals }] } }

/-- What one machine has as globals, the other one has in the frame of a function, and there is nothing else. -/
def Framed (name : String) (m n : Machine) : Prop := m.scope.frames = [] ∧ n = m.inFrame name

/-- What is respected from left to right is respected from right to left. -/
theorem Respected.swap {S : Option Fault → Machine → Machine → Prop} (h : Respected S) :
    Respected fun f m n => S f n m where
  bind m n hmn := h.bind n m hmn
  print m n hmn := h.print n m hmn
  loops m n hmn := (h.loops n m hmn).symm
  track m n hmn := h.track n m hmn
  poll m n hmn := ⟨(h.poll n m hmn).1, (h.poll n m hmn).2.symm⟩

theorem respected_framed (function : String) : Respected fun _ => Framed function where
  bind := by
    rintro m _ ⟨hframes, rfl⟩ name v
    refine ⟨frames_set hframes name v, ?_⟩
    unfold inFrame Scope.set
    rw [hframes]
    rfl
  print := by
    rintro m _ ⟨hframes, rfl⟩ v
    exact ⟨hframes, rfl⟩
  loops := by
    rintro m _ ⟨-, rfl⟩
    rfl
  track := by
    rintro m _ ⟨hframes, rfl⟩ id outcome
    exact ⟨hframes, rfl⟩
  poll := by
    rintro m _ ⟨hframes, rfl⟩
    obtain ⟨scope, output, loops, stopRequested, stopAfter⟩ := m
    rcases stopAfter with - | - | k
    · exact ⟨⟨hframes, rfl⟩, rfl⟩
    · exact ⟨⟨hframes, rfl⟩, rfl⟩
    · exact ⟨⟨hframes, rfl⟩, rfl⟩

/-- An environment in which no function is known. -/
def withoutFunctions : Environment Machine := environment fun name _ => .fail (.unknownFunction name)

theorem Framed.get?_eq {function : String} {m n : Machine} (h : Framed function m n) (name : String) :
    m.scope.get? name = n.scope.get? name := by
  obtain ⟨hframes, rfl⟩ := h
  unfold inFrame Scope.get?
  rw [hframes]
  exact (Option.or_none).symm

theorem environment_sim_framed (function : String) :
    withoutFunctions.Sim (fun _ => Framed function) withoutFunctions where
  lookup _ _ h name := h.get?_eq name
  undefined _ _ h _ := h
  call _ _ := .fail fun _ _ h => h

theorem environment_sim_framed_swap (function : String) :
    withoutFunctions.Sim (fun _ m n => Framed function n m) withoutFunctions where
  lookup _ _ h name := (h.get?_eq name).symm
  undefined _ _ h _ := h
  call _ _ := .fail fun _ _ h => h

/-- **A body does the same with its variables in a frame as with globals**, if no function is known. -/
theorem runBody_framed {function : String} (g : Graph) (finish : BlockId) (allowance : Nat) (id : Option BlockId)
    {m n : Machine} (h : Framed function m n) :
    (runBody (execute withoutFunctions g) function g finish allowance id m).Alike (Framed function)
      (runBody (execute withoutFunctions g) function g finish allowance id n) := by
  have hS := respected_framed function
  have hblocks := fun b => execute_sim hS (environment_sim_framed function) g b fun _ _ _ _ h => h
  have hblocks' := fun b => execute_sim hS.swap (environment_sim_framed_swap function) g b fun _ _ _ _ h => h
  exact Outcome.alike_of_sim
    (runBody_sim hS (fun _ _ _ h => h) hblocks function g finish (Nat.le_refl _) id h)
    (runBody_sim hS.swap (fun _ _ _ h => h) hblocks' function g finish (Nat.le_refl _) id h)

end Machine

/-! ### A function that is not named -/

/-- A function that stands by itself: nothing is handed over to it, its body has all it needs, and its name, which can
be called, stands on no label of the body. -/
structure Function.Solitary (f : Function) : Prop where
  parameters_eq : f.parameters = []
  body : f.body.SelfContained
  isName : Text.isName f.name.toList = true
  unmentioned : ∀ b ∈ f.body.blocks, f.name.toList ∉ Text.names b.label.toList

theorem FunctionTable.get?_ofList_singleton (f : Function) (name : String) :
    (FunctionTable.ofList [f]).get? name = if f.name = name then some f else none := by
  by_cases h : f.name = name
  · simp [FunctionTable.ofList, FunctionTable.insert, FunctionTable.get?, Bindings.get?, Bindings.set, h]
  · simp [FunctionTable.ofList, FunctionTable.insert, FunctionTable.get?, Bindings.get?, Bindings.set, h]

namespace Machine

theorem call_of_unknown {p : Program} {name : String} (h : p.functions.get? name = none) (limit allowance room : Nat) :
    call p limit allowance room name = fun _ => .fail (.unknownFunction name) := by
  funext arguments m
  rw [call_eq]
  unfold admission
  rw [h]
  rfl

/-- **A block on which the only function of a program is not named** does what it does without functions. -/
theorem execute_unmentioned {p : Program} {f : Function} (hp : p.functions = .ofList [f]) (g : Graph) {b : Block}
    (hlabel : f.name.toList ∉ Text.names b.label.toList) (limit allowance room : Nat) :
    execute (environment (call p limit allowance room)) g b = execute withoutFunctions g b := by
  refine execute_congr g rfl fun name hname => call_of_unknown ?_ limit allowance room
  have hne : f.name ≠ name := by
    rintro rfl
    exact hlabel hname
  rw [hp, FunctionTable.get?_ofList_singleton, if_neg hne]

/-- Bodies are alike if the blocks of the chart are. -/
theorem runBody_congr {step step' : Block → Action Machine Flow} {g : Graph} (h : ∀ b ∈ g.blocks, step b = step' b)
    (name : String) (finish : BlockId) (allowance : Nat) (id : Option BlockId) (m : Machine) :
    runBody step name g finish allowance id m = runBody step' name g finish allowance id m := by
  induction allowance generalizing id m with
  | zero => rfl
  | succ allowance ih =>
    cases id with
    | none => rfl
    | some id =>
      rw [runBody, runBody]
      cases hb : g.block? id with
      | none => rfl
      | some b =>
        dsimp only
        rw [h b (Graph.mem_of_block? hb).1]
        simp only [ih]

end Machine

/-- A program with one function. -/
def Program.withFunction (f : Function) (main : Graph) : Program := { main, functions := .ofList [f] }

/-- The body of a function, executed without functions, and with globals for variables. -/
def Function.soloOutcome (f : Function) (start finish : BlockId) (allowance : Nat) : Outcome Machine Unit :=
  Machine.runBody (Machine.execute Machine.withoutFunctions f.body) f.name f.body finish allowance (some start) {}

/-! ### A chart that only calls -/

/-- The path of a chart leads from its start block over a call without arguments to an end block. -/
structure Graph.JustCalls (g : Graph) (name : String) (first call last : Block) : Prop extends g.SelfContained where
  start_eq : g.start? = some first.id
  first_found : g.block? first.id = some first
  first_kind : first.kind = .start
  first_leads : g.successor? first.id = some call.id
  call_found : g.block? call.id = some call
  call_kind : call.kind = .functionCall
  call_label : call.label = name ++ "()"
  call_leads : g.successor? call.id = some last.id
  last_found : g.block? last.id = some last
  last_kind : last.kind = .finish

/-- Without an equality sign there is no assignment. -/
theorem assignment?_eq_none {t : Text} (h : '=' ∉ t) : assignment? t = none := by
  unfold assignment?
  cases hcut : loneEquals? none t with
  | none => rfl
  | some cut =>
    obtain ⟨left, right⟩ := cut
    refine absurd ?_ h
    rw [eq_of_loneEquals hcut]
    exact List.mem_append_right left List.mem_cons_self

/-- Nothing is taken away at the end of a text that ends otherwise. -/
theorem withoutEnd_of_getLast? {c d : Char} {t : Text} (h : t.getLast? = some d) (hne : d ≠ c) : withoutEnd c t = t := by
  obtain ⟨u, rfl⟩ := List.getLast?_eq_some_iff.mp h
  unfold withoutEnd
  rw [List.reverse_append, List.reverse_singleton, List.singleton_append,
    List.dropWhile_cons_of_neg (by rwa [beq_iff_eq]), ← List.singleton_append, List.reverse_append,
    List.reverse_reverse, List.reverse_singleton]

section Calls

variable {name : Text} (hname : Text.isName name = true)
include hname

theorem Text.isBlank_of_mem_name {c : Char} (hc : c ∈ name) : isBlank c = false := by
  refine Bool.eq_false_iff.mpr fun hblank => ?_
  exact absurd (isNamePart_of_mem_name hname hc) (by rw [isNamePart_of_isBlank hblank]; exact Bool.false_ne_true)

/-- A name with an empty pair of parentheses is a call. -/
theorem Literal.call?_name : call? (name ++ ['(', ')']) = some ⟨name, []⟩ := by
  have hopen : ∀ c ∈ name, (c != '(') = true := by
    intro c hc
    rw [bne_iff_ne]
    rintro rfl
    exact absurd (Text.isNamePart_of_mem_name hname hc) (by decide)
  have hparenthesis : ∀ c ∈ ['(', ')'].head?, (c != '(') = false := by rintro _ ⟨⟩; rfl
  obtain ⟨htake, hdrop⟩ := Text.split_run hopen hparenthesis
  have hend : Text.trimEnd name = name :=
    Text.trimEnd_eq_self fun c hc => Text.isBlank_of_mem_name hname (List.mem_of_getLast? hc)
  unfold call?
  dsimp only
  rw [htake, hdrop, hend, if_pos hname]
  rfl

/-- And so it is read on a block. -/
theorem Instruction.ofLabel_call :
    ofLabel .functionCall (name ++ ['(', ')']) = .ok (.call none (String.ofList name) []) := by
  have hblank : ∀ c ∈ name ++ ['(', ')'], Text.isBlank c = false := by
    intro c hc
    rcases List.mem_append.mp hc with hc | hc
    · exact Text.isBlank_of_mem_name hname hc
    · rcases List.mem_pair.mp hc with rfl | rfl <;> rfl
  have htrim := Text.trim_eq_of_edges (fun c hc => hblank c (List.mem_of_mem_head? hc))
    fun c hc => hblank c (List.mem_of_getLast? hc)
  have hend : withoutEnd ';' (name ++ ['(', ')']) = name ++ ['(', ')'] :=
    withoutEnd_of_getLast? (d := ')') (by simp) (by decide)
  have htrimEnd : Text.trimEnd (name ++ ['(', ')']) = name ++ ['(', ')'] :=
    Text.trimEnd_eq_self fun c hc => hblank c (List.mem_of_getLast? hc)
  have hassignment : assignment? (name ++ ['(', ')']) = none := by
    refine assignment?_eq_none fun hmem => ?_
    rcases List.mem_append.mp hmem with hmem | hmem
    · exact absurd (Text.isNamePart_of_mem_name hname hmem) (by decide)
    · exact absurd hmem (by decide)
  unfold ofLabel readCall withoutTerminator
  dsimp only
  rw [htrim, htrim, hend, htrimEnd, hassignment]
  dsimp only
  rw [Literal.call?_name hname]

end Calls

namespace Session

/-! ### Runs -/

/-- A session of a program with one function. -/
def withFunction (f : Function) (main : Graph) (limit : Nat) : Session :=
  .new { program := .withFunction f main, callLimit := limit }

/-- The session at the beginning of a run without a break. -/
def launched (s : Session) : Session := { s.reset with state := .running }

/-- A run without a break is over at some time. -/
def Terminates (s : Session) : Prop := ∃ allowance reply, s.start allowance .silent = some reply

/-- The function of a name, called without arguments on the block that comes next, comes to the end of its body, and
this is the machine then. -/
def CompletesBody (allowance : Nat) (name : String) (s : Session) (m : Machine) : Prop :=
  ∃ a, Machine.admission s.program s.setup.callLimit s.setup.callLimit name [] = .ok a ∧
    Machine.bodyOutcome s.program s.setup.callLimit allowance name [] a s.machine = .done () m

section Runs

variable {f : Function} {main : Graph} {limit : Nat} {start finish : BlockId}

theorem not_asked_empty : ¬Machine.Asked {} := by
  rintro (h | h)
  · cases h
  · exact h rfl

theorem launched_eq_facing (hstart : main.start? = some start) :
    (withFunction f main limit).launched = (withFunction f main limit).launched.facing start {} := by
  have hcurrent : (withFunction f main limit).reset.current = some start := hstart
  unfold facing
  rw [← hcurrent]
  rfl

theorem start_withFunction (hstart : main.start? = some start) (allowance : Nat) :
    (withFunction f main limit).start allowance .silent =
      replied (runLoop allowance .silent allowance 0 [] ((withFunction f main limit).launched.facing start {})) := by
  have hcurrent : (withFunction f main limit).reset.current = some start := hstart
  have hbegin : (withFunction f main limit).begin = { session := (withFunction f main limit).reset } := by
    unfold begin
    dsimp only
    rw [hcurrent]
  rw [← launched_eq_facing hstart]
  unfold Session.start
  dsimp only
  rw [hbegin]
  rfl

/-- **A run ends as the main chart does as a body.** -/
theorem body_of_start (hmain : main.SelfContained) (hstart : main.start? = some start)
    (hfinish : main.finish? = some finish) (name : String) {allowance : Nat} {r : Reply}
    (h : (withFunction f main limit).start allowance .silent = some r) :
    ∃ n fault, ((withFunction f main limit).asBody allowance name finish (allowance + 1) (some start) {}).Finishes n
        fault ∧ r.session.output = n.output ∧ r.session.machine.scope = n.scope ∧
      Trace.errors r.events = (fault.map fun f => failureMessage f.message).toList := by
  obtain ⟨b, hb, rfl, hkind⟩ := hmain.exists_of_firstOf? hstart
  rw [start_withFunction hstart] at h
  obtain ⟨⟨t, events⟩, hloop, rfl⟩ := Option.map_eq_some_iff.mp h
  obtain ⟨n, fault, hbody, t', new, heq, -, hout, hscope, herrors⟩ :=
    body_of_runLoop (s := (withFunction f main limit).launched) hmain hfinish rfl rfl name not_asked_empty hb
      (by rw [hkind]; exact BlockKind.noConfusion) hloop
  cases heq
  exact ⟨n, fault, hbody, hout, hscope, herrors⟩

/-- **A run is over at some time** if the main chart comes to its end as a body. -/
theorem terminates_of_body (hmain : main.SelfContained) (hstart : main.start? = some start)
    (hfinish : main.finish? = some finish) {name : String} {k : Nat} {n : Machine} {fault : Option Fault}
    (h : ((withFunction f main limit).asBody (k + 1) name finish k (some start) {}).Finishes n fault) :
    (withFunction f main limit).Terminates := by
  obtain ⟨b, hb, rfl, hkind⟩ := hmain.exists_of_firstOf? hstart
  obtain ⟨x, hx⟩ := runLoop_of_body (s := (withFunction f main limit).launched) hmain hfinish rfl rfl 0 []
    not_asked_empty hb (by rw [hkind]; exact BlockKind.noConfusion) h
  exact ⟨k + 1, _, by rw [start_withFunction hstart, hx]; rfl⟩

end Runs

/-! ### The two runs -/

section Agreement

variable {f : Function} (hf : f.Solitary) {start finish : BlockId} (hstart : f.body.start? = some start)
  (hfinish : f.body.finish? = some finish) {caller : Graph} {first call last : Block}

include hf

/-- As a body the main chart does what it does by itself. -/
theorem asBody_eq_soloOutcome (limit allowance k : Nat) :
    (withFunction f f.body limit).asBody allowance f.name finish k (some start) {} = f.soloOutcome start finish k :=
  Machine.runBody_congr
    (fun b hb => Machine.execute_unmentioned (p := .withFunction f f.body) rfl f.body (hf.unmentioned b hb) limit
      allowance limit)
    f.name finish k (some start) {}

/-- As the body of a function the chart does what it does by itself, in a frame. -/
theorem soloOutcome_alike (main : Graph) (limit allowance room : Nat) :
    (f.soloOutcome start finish allowance).Alike (Machine.Framed f.name)
      (Machine.bodyOutcome (.withFunction f main) limit allowance f.name [] ⟨f, start, finish, room⟩ {}) := by
  have hframe : f.frame f.name [] = { function := f.name } := by
    unfold Function.frame
    rw [hf.parameters_eq]
    rfl
  have hblocks := fun b hb => Machine.execute_unmentioned (p := .withFunction f main) rfl f.body
    (hf.unmentioned b hb) limit allowance room
  unfold Machine.bodyOutcome
  dsimp only
  rw [Machine.runBody_congr hblocks, hframe]
  exact Machine.runBody_framed f.body finish allowance (some start) ⟨rfl, rfl⟩

include hstart hfinish

/-- The function is admitted when there is room for a call. -/
theorem admission_withFunction (main : Graph) (limit room : Nat) :
    Machine.admission (.withFunction f main) limit (room + 1) f.name [] = .ok ⟨f, start, finish, room⟩ := by
  have hget : (Program.withFunction f main).functions.get? f.name = some f := by
    show (FunctionTable.ofList [f]).get? f.name = some f
    rw [FunctionTable.get?_ofList_singleton, if_pos rfl]
  unfold Machine.admission
  rw [hget]
  dsimp only
  rw [hf.parameters_eq, if_neg (fun h => h rfl), hstart, hfinish]

omit hf hstart hfinish in
theorem executeMain_first (hcaller : caller.JustCalls f.name first call last) (limit allowance : Nat) :
    Machine.executeMain (.withFunction f caller) limit allowance first {} = .done (.next (some call.id)) {} := by
  have hlabel : first.instruction = .ok .start := by
    unfold Block.instruction
    rw [hcaller.first_kind]
    rfl
  unfold Machine.executeMain Machine.execute
  rw [hlabel, ← hcaller.first_leads]
  rfl

theorem executeMain_call (hcaller : caller.JustCalls f.name first call last) (room allowance : Nat) :
    Machine.executeMain (.withFunction f caller) (room + 1) allowance call {} =
      (Machine.returnFrom f [] (Machine.bodyOutcome (.withFunction f caller) (room + 1) allowance f.name []
        ⟨f, start, finish, room⟩ {})).andThen fun _ => pure (.next (some last.id)) := by
  have hlabel : call.instruction = .ok (.call none f.name []) := by
    have hread := Instruction.ofLabel_call hf.isName
    rw [String.ofList_toList] at hread
    unfold Block.instruction
    rw [hcaller.call_kind, hcaller.call_label, String.toList_append, show "()".toList = ['(', ')'] from rfl, hread]
  have hcalls := Machine.call_eq (.withFunction f caller) (room + 1) allowance (room + 1) f.name [] {}
  rw [admission_withFunction hf hstart hfinish] at hcalls
  unfold Machine.executeMain Machine.execute
  rw [hlabel, ← hcaller.call_leads]
  exact congrArg
    (fun o => o.andThen fun _ => (pure (.next (caller.successor? call.id)) : Action Machine Flow)) hcalls

/-- As a body a chart that only calls does what the function does, and returns. -/
theorem asBody_of_justCalls (hcaller : caller.JustCalls f.name first call last) {exit : BlockId}
    (hexit : caller.finish? = some exit) (room allowance : Nat) (name : String) (k : Nat) :
    (Machine.bodyOutcome (.withFunction f caller) (room + 1) allowance f.name [] ⟨f, start, finish, room⟩ {}).Alike
      (fun n n' => n' = n.leave [])
      ((withFunction f caller (room + 1)).asBody allowance name exit (k + 4) (some first.id) {}) := by
  have hstep := fun {b : Block} (hfound : caller.block? b.id = some b) (hkind : b.kind ≠ .finish) =>
    Machine.runBody_succ (Machine.executeMain (.withFunction f caller) (room + 1) allowance) name
      not_asked_empty hfound (hcaller.ne_finish hexit hfound hkind)
  have hends := (Machine.executeMain_of_not_asked (.withFunction f caller) (room + 1) allowance call not_asked_empty).1
  show Outcome.Alike _ _ (Machine.runBody (Machine.executeMain (.withFunction f caller) (room + 1) allowance) name caller
    exit (k + 4) (some first.id) {})
  rw [hstep hcaller.first_found (by rw [hcaller.first_kind]; exact BlockKind.noConfusion), executeMain_first hcaller]
  dsimp only
  rw [hstep hcaller.call_found (by rw [hcaller.call_kind]; exact BlockKind.noConfusion)]
  rw [executeMain_call hf hstart hfinish hcaller] at hends ⊢
  generalize Machine.bodyOutcome (.withFunction f caller) (room + 1) allowance f.name [] ⟨f, start, finish, room⟩ {} = o
    at hends ⊢
  cases o with
  | done u n =>
    show Outcome.Alike (fun n n' => n' = n.leave []) (.done u n)
      ((withFunction f caller (room + 1)).asBody allowance name exit (k + 2) (some last.id) (n.leave []))
    rw [asBody_of_finish (s := withFunction f caller (room + 1)) hends hcaller.last_found hcaller.last_kind]
    exact ⟨rfl, rfl⟩
  | failed fault n => exact ⟨rfl, rfl⟩
  | unfinished => trivial

/-! ### The two runs compared -/

/-- A run of the chart as the main chart ends as the chart does by itself. -/
theorem solo_of_start_main {limit allowance : Nat} {r : Reply}
    (h : (withFunction f f.body limit).start allowance .silent = some r) :
    ∃ n fault, (f.soloOutcome start finish (allowance + 1)).Finishes n fault ∧ r.session.output = n.output ∧
      r.session.machine.scope = n.scope ∧
      Trace.errors r.events = (fault.map fun f => failureMessage f.message).toList := by
  obtain ⟨n, fault, hbody, hrest⟩ := body_of_start hf.body hstart hfinish f.name h
  rw [asBody_eq_soloOutcome hf] at hbody
  exact ⟨n, fault, hbody, hrest⟩

theorem terminates_main_of_solo (limit : Nat) {k : Nat} {n : Machine} {fault : Option Fault}
    (h : (f.soloOutcome start finish k).Finishes n fault) : (withFunction f f.body limit).Terminates := by
  rw [← asBody_eq_soloOutcome hf limit (k + 1)] at h
  exact terminates_of_body hf.body hstart hfinish h

/-- A run of a chart that only calls ends as the called chart does by itself. -/
theorem solo_of_start_caller (hcaller : caller.JustCalls f.name first call last) {room allowance : Nat} {r : Reply}
    (h : (withFunction f caller (room + 1)).start allowance .silent = some r) :
    ∃ n fault, (f.soloOutcome start finish allowance).Finishes n fault ∧ r.session.output = n.output ∧
      Trace.errors r.events = (fault.map fun f => failureMessage f.message).toList := by
  obtain ⟨exit, hexit⟩ := Option.isSome_iff_exists.mp hcaller.finish
  obtain ⟨n, fault, hbody, hout, -, herrors⟩ := body_of_start hcaller.toSelfContained hcaller.start_eq hexit f.name h
  have hlarger := Machine.runBody_of_le (Nat.add_le_add_left (show 1 ≤ 4 by decide) allowance) hbody.ne_unfinished
  rw [asBody, ← hlarger] at hbody
  have hcalled := asBody_of_justCalls hf hstart hfinish hcaller hexit room allowance f.name allowance
  obtain ⟨n₁, rfl, hcall⟩ := hcalled.swap.finishes hbody
  obtain ⟨n₂, ⟨-, rfl⟩, hsolo⟩ := (soloOutcome_alike hf caller (room + 1) allowance room).swap.finishes hcall
  exact ⟨n₂, fault, hsolo, hout, herrors⟩

theorem terminates_caller_of_solo (hcaller : caller.JustCalls f.name first call last) (room : Nat) {k : Nat}
    {n : Machine} {fault : Option Fault} (h : (f.soloOutcome start finish k).Finishes n fault) :
    (withFunction f caller (room + 1)).Terminates := by
  obtain ⟨exit, hexit⟩ := Option.isSome_iff_exists.mp hcaller.finish
  have hlarger := Machine.runBody_of_le (Nat.le_add_right k 5) h.ne_unfinished
  rw [Function.soloOutcome, ← hlarger] at h
  obtain ⟨n₁, -, hcall⟩ := (soloOutcome_alike hf caller (room + 1) (k + 5) room).finishes h
  obtain ⟨n₂, -, hbody⟩ :=
    (asBody_of_justCalls hf hstart hfinish hcaller hexit room (k + 5) f.name k).finishes hcall
  exact terminates_of_body (k := k + 4) hcaller.toSelfContained hcaller.start_eq hexit hbody

/-- The call stands behind the start block, and when the body comes to its end, its variables are in the frame. -/
theorem completesBody_of_solo (hcaller : caller.JustCalls f.name first call last) (room : Nat) {allowance : Nat}
    {n : Machine} (h : (f.soloOutcome start finish allowance).Finishes n none) :
    ∃ before report m,
      (withFunction f caller (room + 1)).launched.executeStep allowance {} = some (before, report) ∧
      before.nextBlock? = some call ∧ before.CompletesBody allowance f.name m ∧
      m.scope.top? = some { function := f.name, locals := n.scope.globals } := by
  obtain ⟨m, ⟨-, rfl⟩, hcall⟩ := (soloOutcome_alike hf caller (room + 1) allowance room).finishes h
  have hfirst : first.kind ≠ .finish := by rw [hcaller.first_kind]; exact BlockKind.noConfusion
  have hcallKind : call.kind ≠ .finish := by rw [hcaller.call_kind]; exact BlockKind.noConfusion
  have hnext := nextBlock?_facing (s := (withFunction f caller (room + 1)).launched) hcaller.call_found hcallKind {}
  have hstep := executeStep_of_done (r := {}) (s := (withFunction f caller (room + 1)).launched.facing first.id {}) rfl
    (nextBlock?_facing (s := (withFunction f caller (room + 1)).launched) hcaller.first_found hfirst {})
    (executeMain_first hcaller (room + 1) allowance)
  rw [← launched_eq_facing hcaller.start_eq] at hstep
  refine ⟨_, _, n.inFrame f.name, hstep.trans (congrArg some (arrive_of_some hnext)), hnext, ?_, rfl⟩
  exact ⟨_, admission_withFunction hf hstart hfinish caller (room + 1) room, hcall.eq_done⟩

end Agreement

/-- **A chart does as a program what it does as a function.**  Be it the main chart of a program whose only function has
it as its body, or be it called by a main chart that does nothing else: one run is over at some time if the other one
is.  Then the output is the same, and so is the error that was reported, if there was any.  Without an error the
globals at the end of the one run are the variables in the frame of the function when the other run comes to the end
of the body. -/
theorem main_agrees_with_body {f : Function} (hf : f.Solitary) {caller : Graph} {first call last : Block}
    (hcaller : caller.JustCalls f.name first call last) {limit : Nat} (hlimit : 1 ≤ limit) :
    ((withFunction f f.body limit).Terminates ↔ (withFunction f caller limit).Terminates) ∧
      ∀ {a b : Nat} {r r' : Reply}, (withFunction f f.body limit).start a .silent = some r →
        (withFunction f caller limit).start b .silent = some r' →
        r.session.output = r'.session.output ∧ Trace.errors r.events = Trace.errors r'.events ∧
          (Trace.errors r.events = [] → ∃ before report m,
            (withFunction f caller limit).launched.executeStep b {} = some (before, report) ∧
            before.nextBlock? = some call ∧ before.CompletesBody b f.name m ∧
            m.scope.top? = some { function := f.name, locals := r.session.machine.scope.globals }) := by
  obtain ⟨start, hstart⟩ := Option.isSome_iff_exists.mp hf.body.start
  obtain ⟨finish, hfinish⟩ := Option.isSome_iff_exists.mp hf.body.finish
  obtain ⟨room, rfl⟩ : ∃ room, limit = room + 1 := ⟨limit - 1, by omega⟩
  refine ⟨⟨?_, ?_⟩, ?_⟩
  · rintro ⟨a, r, h⟩
    obtain ⟨n, fault, hsolo, -⟩ := solo_of_start_main hf hstart hfinish h
    exact terminates_caller_of_solo hf hstart hfinish hcaller room hsolo
  · rintro ⟨b, r', h⟩
    obtain ⟨n, fault, hsolo, -⟩ := solo_of_start_caller hf hstart hfinish hcaller h
    exact terminates_main_of_solo hf hstart hfinish (room + 1) hsolo
  · intro a b r r' h h'
    obtain ⟨n, fault, hsolo, hout, hscope, herrors⟩ := solo_of_start_main hf hstart hfinish h
    obtain ⟨n', fault', hsolo', hout', herrors'⟩ := solo_of_start_caller hf hstart hfinish hcaller h'
    -- The chart by itself is finished in one way, whatever the two allowances were.
    obtain ⟨rfl, rfl⟩ := Machine.runBody_unique hsolo hsolo'
    refine ⟨hout.trans hout'.symm, herrors.trans herrors'.symm, fun hnone => ?_⟩
    rw [hscope]
    cases fault with
    | none => exact completesBody_of_solo hf hstart hfinish hcaller room hsolo'
    | some f =>
      rw [hnone] at herrors
      cases herrors

/-- A function whose body goes round a loop around. -/
def around : Function where
  name := "around"
  returnType := .void
  body :=
    { blocks :=
        [⟨0, .start, ""⟩, ⟨1, .assignment, "done = \"no\""⟩, ⟨2, .loop, "done != \"yes\""⟩,
          ⟨3, .assignment, "done = \"yes\""⟩, ⟨4, .output, "done"⟩, ⟨5, .finish, ""⟩]
      edges :=
        [⟨0, 1, none, none⟩, ⟨1, 2, none, none⟩, ⟨2, 3, some "True", some .whenTrue⟩,
          ⟨2, 4, some "False", some .whenFalse⟩, ⟨3, 2, none, none⟩, ⟨4, 5, none, none⟩] }

/-- A chart that calls it. -/
def callingAround : Graph where
  blocks := [⟨0, .start, ""⟩, ⟨1, .functionCall, "around()"⟩, ⟨2, .finish, ""⟩]
  edges := [⟨0, 1, none, none⟩, ⟨1, 2, none, none⟩]

/-- Both runs are over, with the same output, and the variable is a global in the one and stood in the frame in the
other. -/
theorem main_agrees_with_body_around :
    around.Solitary ∧ callingAround.JustCalls around.name ⟨0, .start, ""⟩ ⟨1, .functionCall, "around()"⟩ ⟨2, .finish, ""⟩ ∧
      1 ≤ 100 ∧ (withFunction around around.body 100).Terminates ∧ (withFunction around callingAround 100).Terminates ∧
      ∀ {a b : Nat} {r r' : Reply}, (withFunction around around.body 100).start a .silent = some r →
        (withFunction around callingAround 100).start b .silent = some r' →
        r.session.output = r'.session.output ∧ Trace.errors r.events = Trace.errors r'.events ∧
          (Trace.errors r.events = [] → ∃ before report m,
            (withFunction around callingAround 100).launched.executeStep b {} = some (before, report) ∧
            before.nextBlock? = some ⟨1, .functionCall, "around()"⟩ ∧ before.CompletesBody b around.name m ∧
            m.scope.top? = some { function := around.name, locals := r.session.machine.scope.globals }) := by
  have hsolitary : around.Solitary :=
    { parameters_eq := rfl
      body := ⟨by decide, by decide, by decide, by decide, by decide⟩
      isName := by decide
      unmentioned := by decide }
  have hcalls : callingAround.JustCalls around.name ⟨0, .start, ""⟩ ⟨1, .functionCall, "around()"⟩ ⟨2, .finish, ""⟩ :=
    { nodup := by decide, start := by decide, finish := by decide, target := by decide, asksNothing := by decide
      start_eq := by decide, first_found := by decide, first_kind := rfl, first_leads := by decide
      call_found := by decide, call_kind := rfl, call_label := by decide, call_leads := by decide
      last_found := by decide, last_kind := rfl }
  have hagree := main_agrees_with_body hsolitary hcalls (show 1 ≤ 100 by decide)
  have hover : (withFunction around around.body 100).Terminates := by
    have hsome : ((withFunction around around.body 100).start 8 .silent).isSome = true := by decide +kernel
    obtain ⟨r, hr⟩ := Option.isSome_iff_exists.mp hsome
    exact ⟨8, r, hr⟩
  exact ⟨hsolitary, hcalls, by decide, hover, hagree.1.mp hover, hagree.2⟩

end Session

end Flowchart
