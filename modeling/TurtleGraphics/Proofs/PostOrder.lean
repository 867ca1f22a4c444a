import TurtleGraphics.Proofs.Guards
import TurtleGraphics.Proofs.Names

/-!
# TurtleGraphics.Proofs.PostOrder

Evaluation as the run of a stack machine.

The program of an expression visits its parts from left to right, each operator behind its operands.
It has no jumps, so every part is visited unless one before it fails; there is no operand that may
be left out.

* `Instruction`, `Instruction.step` : what the machine does at a part of an expression.
* `Instruction.run`       : a run of a program, up to the first failure.
* `Expr.postOrder`        : the program of an expression.
* `Expr.run_postOrder`    : it gives the value of the expression, or the fault of its evaluation.
* `Instruction.FailsAt`   : what can fail at a place of a program: an unbound variable, and a
  division by zero if the machine comes as far as that.
* `eval_stack_machine`    : the fault of an expression is the first of these.
-/

namespace TurtleGraphics

/-- What the machine does at a part of an expression. -/
inductive Instruction where
  | push (v : Value)
  | variable (name : String)
  | query (q : Query)
  | numeric (op : NumericOp)
  | logic (op : LogicOp)
  | negation
  | foreign (shape : Shape)

/-- The parts of an expression from left to right, an operator behind its operands. -/
def Expr.postOrder : Expr → List Instruction
  | .number x => [.push (.number x)]
  | .boolean b => [.push (.truth b)]
  | .variable name => [.variable name]
  | .query q => [.query q]
  | .numeric op l r => l.postOrder ++ (r.postOrder ++ [.numeric op])
  | .logic op l r => l.postOrder ++ (r.postOrder ++ [.logic op])
  | .negation e => e.postOrder ++ [.negation]
  | .foreign s => [.foreign s]

namespace Instruction

/-- Puts a value on top of the stack, unless there is a fault in its place. -/
def pushed (stack : List Value) (r : Except Fault Value) : Option (Except Fault (List Value)) :=
  some (r.map (· :: stack))

/-- One step of the machine. An operator takes its operands from the top of the stack, the last one
first, and puts its result there; without enough of them there is no step. -/
def step (env : Environment) : Instruction → List Value → Option (Except Fault (List Value))
  | .push v, stack => pushed stack (.ok v)
  | .variable name, stack =>
    match env.lookup? (some name) with
    | some v => pushed stack (.ok v)
    | none => pushed stack (.error (.undefinedVariable (some name)))
  | .query q, stack => pushed stack ((env.turtle.query q).map .number)
  | .numeric op, b :: a :: stack => pushed stack (op.apply a.toNumber b.toNumber)
  | .logic op, b :: a :: stack => pushed stack (op.apply a.truthy b.truthy)
  | .negation, a :: stack => pushed stack (.ok (.truth (!a.truthy)))
  | .foreign s, stack => pushed stack (.error (.misfit (.notExpression s)))
  | _, _ => none

/-- The stack behind a program, or the first fault. -/
def run (env : Environment) : List Instruction → List Value → Option (Except Fault (List Value))
  | [], stack => some (.ok stack)
  | i :: rest, stack =>
    match i.step env stack with
    | some (.ok stack₁) => run env rest stack₁
    | r => r

variable {env : Environment} {is js : List Instruction} {i : Instruction} {f : Fault}
  {stack stack₁ : List Value} {j k : Nat}

theorem run_concat (is js : List Instruction) (stack : List Value) :
    run env (is ++ js) stack =
      match run env is stack with
      | some (.ok stack₁) => run env js stack₁
      | r => r := by
  induction is generalizing stack with
  | nil => rfl
  | cons i is ih =>
    rw [List.cons_append, run, run]
    split
    · exact ih _
    · rename_i hno
      split
      · rename_i hok
        exact absurd hok (hno _)
      · rfl

/-- A program fails where one of its instructions does, the ones before it having been run. -/
theorem run_eq_error_iff :
    run env is stack = some (.error f) ↔
      ∃ k i stack₁, is[k]? = some i ∧ run env (is.take k) stack = some (.ok stack₁) ∧
        i.step env stack₁ = some (.error f) := by
  constructor
  · intro h
    induction is generalizing stack with
    | nil => cases h
    | cons i is ih =>
      rw [run] at h
      split at h
      · rename_i stack₁ hi
        obtain ⟨k, i', stack₂, hget, hrun, hstep⟩ := ih h
        refine ⟨k + 1, i', stack₂, by rwa [List.getElem?_cons_succ], ?_, hstep⟩
        rw [List.take_succ_cons, run, hi]
        exact hrun
      · exact ⟨0, i, stack, rfl, rfl, h⟩
  · rintro ⟨k, i, stack₁, hget, hrun, hstep⟩
    obtain ⟨hlt, rfl⟩ := List.getElem?_eq_some_iff.mp hget
    rw [← List.take_append_drop k is, run_concat, hrun, List.drop_eq_getElem_cons hlt]
    simp only [run, hstep]

/-- The instructions that have been run have not failed. -/
theorem step_of_run_take (hrun : run env (is.take k) stack = some (.ok stack₁)) (hlt : j < k)
    (hget : is[j]? = some i) :
    ∃ stack₂ stack₃, run env (is.take j) stack = some (.ok stack₂) ∧
      i.step env stack₂ = some (.ok stack₃) := by
  obtain ⟨hj, rfl⟩ := List.getElem?_eq_some_iff.mp hget
  have hj' : j < (is.take k).length := by
    rw [List.length_take]
    omega
  have hsplit : is.take k = is.take j ++ is[j] :: (is.take k).drop (j + 1) := by
    calc is.take k = (is.take k).take j ++ (is.take k).drop j := (List.take_append_drop j _).symm
      _ = is.take j ++ is[j] :: (is.take k).drop (j + 1) := by
        rw [List.take_take, Nat.min_eq_left (Nat.le_of_lt hlt), List.drop_eq_getElem_cons hj',
          List.getElem_take]
  rw [hsplit, run_concat] at hrun
  split at hrun
  · rename_i stack₂ hfirst
    rw [run] at hrun
    split at hrun
    · rename_i stack₃ hstep
      exact ⟨stack₂, stack₃, hfirst, hstep⟩
    · rename_i hno
      exact absurd hrun (hno _)
  · rename_i hno
    exact absurd hrun (hno _)

end Instruction

/-- The program of an expression puts its value on the stack, or stops with the fault of its
evaluation. -/
theorem Expr.run_postOrder (env : Environment) (e : Expr) (is : List Instruction)
    (stack : List Value) :
    Instruction.run env (e.postOrder ++ is) stack =
      match e.eval env with
      | .error f => some (.error f)
      | .ok v => Instruction.run env is (v :: stack) := by
  induction e generalizing is stack with
  | number x => rfl
  | boolean b => rfl
  | «variable» name =>
    rw [postOrder, List.singleton_append, Instruction.run, Instruction.step, eval]
    cases env.lookup? (some name) <;> rfl
  | query q =>
    rw [postOrder, List.singleton_append, Instruction.run, Instruction.step, eval]
    cases env.turtle.query q <;> rfl
  | numeric op l r ihl ihr =>
    rw [postOrder, List.append_assoc, List.append_assoc, ihl, eval]
    cases l.eval env with
    | error f => rfl
    | ok a =>
      simp only [ihr]
      cases r.eval env with
      | error f => rfl
      | ok b =>
        simp only [List.singleton_append, Instruction.run, Instruction.step]
        cases op.apply a.toNumber b.toNumber <;> rfl
  | logic op l r ihl ihr =>
    rw [postOrder, List.append_assoc, List.append_assoc, ihl, eval]
    cases l.eval env with
    | error f => rfl
    | ok a =>
      simp only [ihr]
      cases r.eval env with
      | error f => rfl
      | ok b =>
        simp only [List.singleton_append, Instruction.run, Instruction.step]
        cases op.apply a.truthy b.truthy <;> rfl
  | negation e ih =>
    rw [postOrder, List.append_assoc, ih, eval]
    cases e.eval env <;> rfl
  | foreign s => rfl

/-- So the run of the program alone is the evaluation. -/
theorem Expr.run_postOrder_nil (env : Environment) (e : Expr) :
    Instruction.run env e.postOrder [] = some ((e.eval env).map fun v => [v]) := by
  have h := e.run_postOrder env [] []
  rw [List.append_nil] at h
  rw [h]
  cases e.eval env <;> rfl

/-! ## Failures of expressions of the language -/

namespace Instruction

/-- Something can fail at a place of a program: a variable there is unbound, or the machine comes to
a division there with zero on top of the stack. -/
inductive FailsAt (env : Environment) (is : List Instruction) : Nat → Fault → Prop where
  | unbound {k : Nat} {name : String} : is[k]? = some (.variable name) →
      env.lookup? (some name) = none → FailsAt env is k (.undefinedVariable (some name))
  | division {k : Nat} {a b : Value} {stack : List Value} : is[k]? = some (.numeric .div) →
      run env (is.take k) [] = some (.ok (b :: a :: stack)) → (b.toNumber == 0.0) = true →
      FailsAt env is k .divisionByZero

/-- The instruction is not that of a word without a meaning, nor of something that is no
expression. -/
def isKnown : Instruction → Bool
  | .query q => (Keyword.query q).isKnown
  | .numeric op => (Keyword.numeric op).isKnown
  | .logic op => (Keyword.logic op).isKnown
  | .foreign _ => false
  | _ => true

variable {env : Environment} {is : List Instruction} {i : Instruction} {f f' : Fault}
  {stack : List Value} {j k : Nat}

/-- The steps that can fail are that to an unbound variable and a division by zero. -/
theorem step_fails (hknown : i.isKnown = true) (h : i.step env stack = some (.error f)) :
    (∃ name, i = .variable name ∧ env.lookup? (some name) = none ∧
      f = .undefinedVariable (some name)) ∨
    ∃ a b rest, i = .numeric .div ∧ stack = b :: a :: rest ∧ (b.toNumber == 0.0) = true ∧
      f = .divisionByZero := by
  unfold step at h
  split at h
  · cases h
  · rename_i name
    split at h
    · cases h
    · rename_i hnone
      cases h
      exact .inl ⟨name, rfl, hnone, rfl⟩
  · rename_i q
    cases q with
    | unknown w => cases hknown
    | _ => cases h
  · rename_i op b a rest
    cases op with
    | div =>
      simp only [NumericOp.apply] at h
      split at h
      · rename_i hzero
        cases h
        exact .inr ⟨a, b, rest, rfl, rfl, hzero, rfl⟩
      · cases h
    | unknown w => cases hknown
    | _ => cases h
  · rename_i op b a rest
    cases op with
    | unknown w => cases hknown
    | _ => cases h
  · cases h
  · cases hknown
  · cases h

theorem FailsAt.of_step (hknown : i.isKnown = true) (hget : is[k]? = some i)
    (hrun : run env (is.take k) [] = some (.ok stack))
    (h : i.step env stack = some (.error f)) : FailsAt env is k f := by
  obtain ⟨name, rfl, hnone, rfl⟩ | ⟨a, b, rest, rfl, rfl, hzero, rfl⟩ := step_fails hknown h
  · exact .unbound hget hnone
  · exact .division hget hrun hzero

/-- What can fail at a place does, if the machine comes there. So a place that the machine has
passed is none of these. -/
theorem FailsAt.le (h : FailsAt env is j f) (hrun : run env (is.take k) [] = some (.ok stack)) :
    k ≤ j := by
  by_contra hlt
  rw [Nat.not_le] at hlt
  cases h with
  | unbound hget hnone =>
    obtain ⟨_, _, -, hstep⟩ := step_of_run_take hrun hlt hget
    simp only [step, hnone, pushed] at hstep
    cases hstep
  | division hget hfirst hzero =>
    obtain ⟨_, _, hsecond, hstep⟩ := step_of_run_take hrun hlt hget
    rw [hfirst] at hsecond
    cases hsecond
    simp only [step, NumericOp.apply, if_pos hzero, pushed] at hstep
    cases hstep

theorem FailsAt.lt_length (h : FailsAt env is k f) : k < is.length := by
  cases h with
  | unbound hget _ => exact (List.getElem?_eq_some_iff.mp hget).1
  | division hget _ _ => exact (List.getElem?_eq_some_iff.mp hget).1

theorem FailsAt.unique (h : FailsAt env is k f) (h' : FailsAt env is k f') : f = f' := by
  cases h with
  | unbound hget _ =>
    cases h' with
    | unbound hget' _ =>
      rw [hget] at hget'
      cases hget'
      rfl
    | division hget' _ _ =>
      rw [hget] at hget'
      cases hget'
  | division hget _ _ =>
    cases h' with
    | unbound hget' _ =>
      rw [hget] at hget'
      cases hget'
    | division _ _ _ => rfl

end Instruction

namespace Expr

theorem variable_mem_postOrder {name : String} {e : Expr} :
    .variable name ∈ e.postOrder ↔ name ∈ e.names := by
  induction e with
  | numeric op l r ihl ihr => simp [postOrder, names, ihl, ihr]
  | logic op l r ihl ihr => simp [postOrder, names, ihl, ihr]
  | negation e ih => simp [postOrder, names, ih]
  | _ => simp [postOrder, names]

theorem InLanguage.isKnown {e : Expr} (h : e.InLanguage) :
    ∀ i ∈ e.postOrder, i.isKnown = true := by
  induction e with
  | query q => exact List.forall_mem_singleton.mpr (Keyword.Listed.isKnown h)
  | numeric op l r ihl ihr =>
    obtain ⟨hop, hl, hr⟩ := h
    intro i hi
    simp only [postOrder, List.mem_append, List.mem_singleton] at hi
    obtain hi | hi | rfl := hi
    · exact ihl hl i hi
    · exact ihr hr i hi
    · exact hop.isKnown
  | logic op l r ihl ihr =>
    obtain ⟨hop, hl, hr⟩ := h
    intro i hi
    simp only [postOrder, List.mem_append, List.mem_singleton] at hi
    obtain hi | hi | rfl := hi
    · exact ihl hl i hi
    · exact ihr hr i hi
    · exact hop.isKnown
  | negation e ih =>
    intro i hi
    simp only [postOrder, List.mem_append, List.mem_singleton] at hi
    obtain hi | rfl := hi
    · exact ih h i hi
    · rfl
  | foreign s => cases h
  | _ => exact List.forall_mem_singleton.mpr rfl

variable {env : Environment} {e : Expr} {f : Fault}

/-- The fault of an expression is that of the first place of its program where anything can fail. -/
theorem InLanguage.failsAt_of_eval (h : e.InLanguage) (heval : e.eval env = .error f) :
    ∃ k, Instruction.FailsAt env e.postOrder k f ∧
      ∀ j f', Instruction.FailsAt env e.postOrder j f' → k ≤ j := by
  have hrun := e.run_postOrder_nil env
  rw [heval] at hrun
  obtain ⟨k, i, stack, hget, hbefore, hstep⟩ := Instruction.run_eq_error_iff.mp hrun
  have hknown := h.isKnown i (List.mem_of_getElem? hget)
  exact ⟨k, .of_step hknown hget hbefore hstep, fun _ _ hj => hj.le hbefore⟩

/-- Where anything can fail in its program, an expression has no value. -/
theorem eval_of_failsAt {k : Nat} (h : Instruction.FailsAt env e.postOrder k f) :
    ∃ f', e.eval env = .error f' := by
  cases heval : e.eval env with
  | error f' => exact ⟨f', rfl⟩
  | ok v =>
    have hrun := e.run_postOrder_nil env
    rw [heval, ← List.take_length (l := e.postOrder)] at hrun
    have hle := h.le hrun
    have hlt := h.lt_length
    omega

end Expr

/-- The evaluation of an expression that was parsed is the run of a stack machine that goes through
it from left to right, operators behind their operands, and stops at the first failure. It fails
just when a variable of the expression is unbound, wherever that stands, or the machine comes to a
division by zero; and the fault is the first of these in the order of the machine. -/
theorem eval_stack_machine {limit start stop : Nat} {tokens : List Token} {e : Expr}
    (h : parseExpr limit tokens start = .ok (e, stop)) (env : Environment) :
    Instruction.run env e.postOrder [] = some ((e.eval env).map fun v => [v]) ∧
    ((∃ f, e.eval env = .error f) ↔
      (∃ name ∈ e.names, env.lookup? (some name) = none) ∨
        ∃ k, Instruction.FailsAt env e.postOrder k .divisionByZero) ∧
    ∀ f, e.eval env = .error f ↔
      ∃ k, Instruction.FailsAt env e.postOrder k f ∧
        ∀ j f', Instruction.FailsAt env e.postOrder j f' → k ≤ j := by
  have hlanguage : e.InLanguage := (parseExpr_eq_ok_iff.mp h).2.2.1.1
  refine ⟨e.run_postOrder_nil env, ⟨?_, ?_⟩, fun f => ⟨hlanguage.failsAt_of_eval, ?_⟩⟩
  · rintro ⟨f, heval⟩
    obtain ⟨k, hfails, -⟩ := hlanguage.failsAt_of_eval heval
    cases hfails with
    | unbound hget hnone =>
      exact .inl ⟨_, Expr.variable_mem_postOrder.mp (List.mem_of_getElem? hget), hnone⟩
    | division hget hrun hzero => exact .inr ⟨k, .division hget hrun hzero⟩
  · rintro (⟨name, hname, hnone⟩ | ⟨k, hfails⟩)
    · obtain ⟨k, hget⟩ := List.getElem?_of_mem (Expr.variable_mem_postOrder.mpr hname)
      exact Expr.eval_of_failsAt (.unbound hget hnone)
    · exact Expr.eval_of_failsAt hfails
  · rintro ⟨k, hfails, hfirst⟩
    obtain ⟨f', heval⟩ := Expr.eval_of_failsAt hfails
    obtain ⟨j, hfails', hfirst'⟩ := hlanguage.failsAt_of_eval heval
    obtain rfl : k = j := Nat.le_antisymm (hfirst j f' hfails') (hfirst' k f hfails)
    rwa [hfails.unique hfails']

/-- The first operand of `OR` is true, and the second one is evaluated all the same. It divides by
zero before it comes to a variable that is unbound. -/
theorem eval_stack_machine_eager :
    let e : Expr := .logic .or (.boolean true)
      (.numeric .add (.numeric .div (.boolean true) (.boolean false)) (.variable "x"))
    let env := Environment.fresh (.startingAt 0.0 0.0)
    parseExpr 9 [.ofWord "OR", .ofQuoted "TRUE", .ofWord "+", .ofWord "/", .ofQuoted "TRUE",
        .ofQuoted "FALSE", ⟨.variable, "x"⟩] 0 = .ok (e, 7) ∧
      e.eval env = .error .divisionByZero ∧
      ∃ k, Instruction.FailsAt env e.postOrder k .divisionByZero ∧
        ∀ j f', Instruction.FailsAt env e.postOrder j f' → k ≤ j := by
  intro e env
  have hparse : parseExpr 9 [.ofWord "OR", .ofQuoted "TRUE", .ofWord "+", .ofWord "/",
      .ofQuoted "TRUE", .ofQuoted "FALSE", ⟨.variable, "x"⟩] 0 = .ok (e, 7) := by
    with_unfolding_all rfl
  have heval : e.eval env = .error .divisionByZero := rfl
  exact ⟨hparse, heval, ((eval_stack_machine hparse env).2.2 _).mp heval⟩

end TurtleGraphics
