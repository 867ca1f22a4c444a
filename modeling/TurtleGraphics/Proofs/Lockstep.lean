import Mathlib.Data.List.Forall2
import TurtleGraphics.Proofs.Moments

/-!
# TurtleGraphics.Proofs.Lockstep

Two executions side by side.

* `Agreed`           : two results that are both failures or both values, and related either way.
* `Outcome.Alike`    : the same of two outcomes.
* `Stepwise`         : two statements that do alike on two machines, as far as one step goes.
* `Lockstep`         : what has to be shown of single steps.
* `Lockstep.of_eq`   : less has to be shown if the two scripts are the same.
* `Lockstep.run`     : then runs of matching scripts from similar machines end alike.

The two executions take the same steps in the same order, so they need the same limits. `Code` tells
which statements match and `Sim` which machines are similar. Both depend on a *view*, which a call
may change for the time of its body; it can count the scopes on the stack, or say what the innermost
one is. `Same` tells which ends of a run are taken to be the same.
-/

namespace TurtleGraphics

/-- Two results are both failures or both values, and are related either way. -/
inductive Agreed {ε α : Type} (Failures : ε → ε → Prop) (Values : α → α → Prop) :
    Except ε α → Except ε α → Prop where
  | error {e e' : ε} : Failures e e' → Agreed Failures Values (.error e) (.error e')
  | ok {a a' : α} : Values a a' → Agreed Failures Values (.ok a) (.ok a')

theorem Agreed.error_or_ok {ε α : Type} {Failures : ε → ε → Prop} {Values : α → α → Prop}
    {r r' : Except ε α} (h : Agreed Failures Values r r') :
    (∃ e e', r = .error e ∧ r' = .error e' ∧ Failures e e') ∨
      ∃ a a', r = .ok a ∧ r' = .ok a' ∧ Values a a' := by
  cases h with
  | error he => exact .inl ⟨_, _, rfl, rfl, he⟩
  | ok ha => exact .inr ⟨_, _, rfl, rfl, ha⟩

theorem Agreed.of_eq {ε α : Type} {Failures : ε → ε → Prop} {Values : α → α → Prop}
    (hf : ∀ e, Failures e e) (hv : ∀ a, Values a a) {r r' : Except ε α} (h : r' = r) :
    Agreed Failures Values r r' := by
  subst h
  cases r' with
  | error e => exact .error (hf e)
  | ok a => exact .ok (hv a)

/-- Two outcomes are of the same kind, and left similar machines. -/
inductive Outcome.Alike (Sim : Machine → Machine → Prop) (Same : Halt → Halt → Prop) :
    Outcome → Outcome → Prop where
  | done {m m' : Machine} : Sim m m' → Alike Sim Same (.done m) (.done m')
  | halted {why why' : Halt} {m m' : Machine} : Same why why' → Sim m m' →
      Alike Sim Same (.halted why m) (.halted why' m')

theorem Outcome.Alike.done_or_halted {Sim : Machine → Machine → Prop} {Same : Halt → Halt → Prop}
    {o o' : Outcome} (h : Outcome.Alike Sim Same o o') :
    (∃ m m', o = .done m ∧ o' = .done m' ∧ Sim m m') ∨
      ∃ why why' m m', o = .halted why m ∧ o' = .halted why' m' ∧ Same why why' ∧ Sim m m' := by
  cases h with
  | done hm => exact .inl ⟨_, _, rfl, rfl, hm⟩
  | halted hwhy hm => exact .inr ⟨_, _, _, _, rfl, rfl, hwhy, hm⟩

theorem Outcome.Alike.popScope {Sim Sim' : Machine → Machine → Prop} {Same : Halt → Halt → Prop}
    {o o' : Outcome} (h : Outcome.Alike Sim Same o o')
    (hpop : ∀ m m', Sim m m' → Sim' m.popScope m'.popScope) :
    Outcome.Alike Sim' Same o.popScope o'.popScope := by
  cases h with
  | done hm => exact .done (hpop _ _ hm)
  | halted hsame hm => exact .halted hsame (hpop _ _ hm)

theorem Outcome.Alike.machine {Sim : Machine → Machine → Prop} {Same : Halt → Halt → Prop}
    {o o' : Outcome} (h : Outcome.Alike Sim Same o o') : Sim o.machine o'.machine := by
  cases h with
  | done hm => exact hm
  | halted _ hm => exact hm

theorem Outcome.Alike.halt?_eq {Sim : Machine → Machine → Prop} {o o' : Outcome}
    (h : Outcome.Alike Sim Eq o o') : o'.halt? = o.halt? := by
  cases h with
  | done _ => rfl
  | halted hwhy _ => rw [Outcome.halt?, Outcome.halt?, hwhy]

/-- Two tasks of the same kind whose statements match one by one. -/
inductive Task.Matched (Code : Stmt → Stmt → Prop) : Task → Task → Prop where
  | stmt {s s' : Stmt} : Code s s' → Matched Code (.stmt s) (.stmt s')
  | loop {e e' : Expr} {block block' : List Stmt} :
      Code (.whileDo e block) (.whileDo e' block') →
      Matched Code (.loop e block) (.loop e' block')
  | block {ss ss' : List Stmt} : List.Forall₂ Code ss ss' → Matched Code (.block ss) (.block ss')
  | all {ss ss' : List Stmt} : List.Forall₂ Code ss ss' → Matched Code (.all ss) (.all ss')

section

variable {View : Type} (Code : View → Stmt → Stmt → Prop) (Sim : View → Machine → Machine → Prop)
  (Same : Halt → Halt → Prop)

/-- Two faults end a run in the same way. -/
def SameFault (f f' : Fault) : Prop := Same (.ofFault f) (.ofFault f')

/-- Two values decide a condition in the same way. -/
def SameDecision (a a' : Value) : Prop := a.truthy = a'.truthy

/-- Two calls run matching bodies, with similar machines inside and after them. -/
def SameEntry (i : View) (m m' : Machine) (call call' : Scope × List Stmt) : Prop :=
  ∃ j, List.Forall₂ (Code j) call.2 call'.2 ∧ Sim j (m.pushScope call.1) (m'.pushScope call'.1) ∧
    ∀ m₁ m₁', Sim j m₁ m₁' → Sim i m₁.popScope m₁'.popScope

/-- Two statements are of the same kind, and one step of each on its machine does alike. -/
inductive Stepwise (i : View) : Stmt → Machine → Stmt → Machine → Prop where
  | command {v v' : Verb} {operands operands' : List Expr} {target target' : Option String}
      {m m' : Machine} :
      Agreed Same (fun r r' => Sim i (m.after r.1 r.2) (m'.after r'.1 r'.2))
        (perform m.env v operands target) (perform m'.env v' operands' target') →
      Stepwise i (.command v operands target) m (.command v' operands' target') m'
  | ifThen {e e' : Expr} {block block' : List Stmt} {m m' : Machine} :
      Agreed (SameFault Same) SameDecision (e.eval m.env) (e'.eval m'.env) →
      List.Forall₂ (Code i) block block' →
      Stepwise i (.ifThen e block) m (.ifThen e' block') m'
  | whileDo {e e' : Expr} {block block' : List Stmt} {m m' : Machine} :
      Agreed (SameFault Same) SameDecision (e.eval m.env) (e'.eval m'.env) →
      List.Forall₂ (Code i) block block' →
      Stepwise i (.whileDo e block) m (.whileDo e' block') m'
  | define {name name' : String} {parameters parameters' : List String} {body body' : List Stmt}
      {m m' : Machine} :
      Sim i (m.define name ⟨parameters, body⟩) (m'.define name' ⟨parameters', body'⟩) →
      Stepwise i (.define name parameters body) m (.define name' parameters' body') m'
  | call {name name' : String} {arguments arguments' : List Expr} {m m' : Machine} :
      Agreed (SameFault Same) (SameEntry Code Sim i m m') (enterCall m.env name arguments)
        (enterCall m'.env name' arguments') →
      Stepwise i (.call name arguments) m (.call name' arguments') m'
  | foreign {shape shape' : Shape} {m m' : Machine} :
      SameFault Same (.misfit (.notStatement shape)) (.misfit (.notStatement shape')) →
      Stepwise i (.foreign shape) m (.foreign shape') m'

/-- Matching statements do alike on similar machines, and the limits of a run end it alike. -/
structure Lockstep : Prop where
  tooDeep : Same .tooDeep .tooDeep
  outOfSteps : Same .outOfSteps .outOfSteps
  named : ∀ {i s s' why why'}, Code i s s' → Same why why' →
    Same (why.inStatement s) (why'.inStatement s')
  step : ∀ {i s s' m m'}, Code i s s' → Sim i m m' → Stepwise Code Sim Same i s m s' m'

end

/-- Where a script is matched with itself, four things have to be shown of the machines. -/
theorem Lockstep.of_eq {View : Type} {Sim : View → Machine → Machine → Prop}
    (hcommand : ∀ {i m m'}, Sim i m m' → ∀ v operands target,
      Agreed Eq (fun r r' => Sim i (m.after r.1 r.2) (m'.after r'.1 r'.2))
        (perform m.env v operands target) (perform m'.env v operands target))
    (heval : ∀ {i m m'}, Sim i m m' → ∀ e : Expr,
      Agreed (SameFault Eq) SameDecision (e.eval m.env) (e.eval m'.env))
    (hdefine : ∀ {i m m'}, Sim i m m' → ∀ name p, Sim i (m.define name p) (m'.define name p))
    (hcall : ∀ {i m m'}, Sim i m m' → ∀ name arguments,
      Agreed (SameFault Eq) (SameEntry (fun _ => Eq) Sim i m m')
        (enterCall m.env name arguments) (enterCall m'.env name arguments)) :
    Lockstep (fun _ => Eq) Sim Eq where
  tooDeep := rfl
  outOfSteps := rfl
  named := by
    rintro _ s _ why _ rfl rfl
    rfl
  step := by
    rintro _ s _ m m' rfl hm
    cases s with
    | command v operands target => exact .command (hcommand hm v operands target)
    | ifThen e block => exact .ifThen (heval hm e) (List.forall₂_refl block)
    | whileDo e block => exact .whileDo (heval hm e) (List.forall₂_refl block)
    | define name parameters body => exact .define (hdefine hm name _)
    | call name arguments => exact .call (hcall hm name arguments)
    | foreign shape => exact .foreign rfl

namespace Lockstep

variable {View : Type} {Code : View → Stmt → Stmt → Prop} {Sim : View → Machine → Machine → Prop}
  {Same : Halt → Halt → Prop} {steps : Nat}

/-- With so many steps, matching tasks on similar machines end alike. -/
def Below (Code : View → Stmt → Stmt → Prop) (Sim : View → Machine → Machine → Prop)
    (Same : Halt → Halt → Prop) (steps : Nat) : Prop :=
  ∀ i depth task task' m m', Task.Matched (Code i) task task' → Sim i m m' →
    Outcome.Alike (Sim i) Same (Moment.outcome ⟨steps, depth, task, m⟩)
      (Moment.outcome ⟨steps, depth, task', m'⟩)

variable (h : Lockstep Code Sim Same)

include h

theorem execute_succ (ih : Below Code Sim Same steps) {i : View} {depth : Nat} {s s' : Stmt}
    {m m' : Machine} (hs : Code i s s') (hm : Sim i m m') :
    Outcome.Alike (Sim i) Same (execute (steps + 1) depth s m)
      (execute (steps + 1) depth s' m') := by
  cases h.step hs hm with
  | command hp =>
    obtain ⟨_, _, hr, hr', hwhy⟩ | ⟨_, _, hr, hr', hafter⟩ := hp.error_or_ok
    · simp only [execute, hr, hr']
      exact .halted hwhy hm
    · simp only [execute, hr, hr']
      exact .done hafter
  | ifThen he hb =>
    obtain ⟨_, _, hr, hr', hf⟩ | ⟨a, a', hr, hr', hv⟩ := he.error_or_ok
    · simp only [execute, hr, hr']
      exact .halted hf hm
    · rw [SameDecision] at hv
      simp only [execute, hr, hr', ← hv]
      split
      · exact ih i depth (.block _) (.block _) _ _ (.block hb) hm
      · exact .done hm
  | whileDo _ _ => exact ih i depth (.loop _ _) (.loop _ _) _ _ (.loop hs) hm
  | define hdef => exact .done hdef
  | call hc =>
    obtain ⟨_, _, hr, hr', hf⟩ | ⟨_, _, hr, hr', j, hbody, hpush, hpop⟩ := hc.error_or_ok
    · simp only [execute, hr, hr']
      exact .halted hf hm
    · simp only [execute, hr, hr']
      exact (ih j depth (.block _) (.block _) _ _ (.block hbody) hpush).popScope hpop
  | foreign hf => exact .halted hf hm

theorem executeLoop_succ (ih : Below Code Sim Same steps) {i : View} {depth : Nat} {e e' : Expr}
    {block block' : List Stmt} {m m' : Machine}
    (hs : Code i (.whileDo e block) (.whileDo e' block')) (hm : Sim i m m') :
    Outcome.Alike (Sim i) Same (executeLoop (steps + 1) depth e block m)
      (executeLoop (steps + 1) depth e' block' m') := by
  cases h.step hs hm with
  | whileDo he hb =>
    obtain ⟨_, _, hr, hr', hf⟩ | ⟨a, a', hr, hr', hv⟩ := he.error_or_ok
    · simp only [executeLoop, hr, hr']
      exact .halted hf hm
    · rw [SameDecision] at hv
      simp only [executeLoop, hr, hr', ← hv]
      split
      · have hblock := ih i depth (.block block) (.block block') m m' (.block hb) hm
        obtain ⟨_, _, ho, ho', hm₁⟩ | ⟨_, _, _, _, ho, ho', hwhy, hm₁⟩ := hblock.done_or_halted
        · simp only [Moment.outcome] at ho ho'
          simp only [ho, ho']
          exact ih i depth (.loop e block) (.loop e' block') _ _ (.loop hs) hm₁
        · simp only [Moment.outcome] at ho ho'
          simp only [ho, ho']
          exact .halted hwhy hm₁
      · exact .done hm

theorem executeAll_succ (ih : Below Code Sim Same steps) {i : View} {depth : Nat}
    {ss ss' : List Stmt} {m m' : Machine} (hss : List.Forall₂ (Code i) ss ss')
    (hm : Sim i m m') :
    Outcome.Alike (Sim i) Same (executeAll (steps + 1) depth ss m)
      (executeAll (steps + 1) depth ss' m') := by
  cases hss with
  | nil => exact .done hm
  | @cons s s' rest rest' hs hrest =>
    have hfirst := ih i depth (.stmt s) (.stmt s') m m' (.stmt hs) hm
    obtain ⟨_, _, ho, ho', hm₁⟩ | ⟨_, _, _, _, ho, ho', hwhy, hm₁⟩ := hfirst.done_or_halted
    · simp only [Moment.outcome] at ho ho'
      simp only [executeAll, ho, ho']
      exact ih i depth (.all rest) (.all rest') _ _ (.all hrest) hm₁
    · simp only [Moment.outcome] at ho ho'
      simp only [executeAll, ho, ho']
      exact .halted (h.named hs hwhy) hm₁

theorem below (steps : Nat) : Below Code Sim Same steps := by
  induction steps with
  | zero =>
    intro i depth task task' m m' htask hm
    cases htask <;> exact .halted h.outOfSteps hm
  | succ steps ih =>
    intro i depth task task' m m' htask hm
    cases htask with
    | stmt hs => exact h.execute_succ ih hs hm
    | loop hs => exact h.executeLoop_succ ih hs hm
    | block hss =>
      cases depth with
      | zero => exact .halted h.tooDeep hm
      | succ depth => exact ih i depth (.all _) (.all _) m m' (.all hss) hm
    | all hss => exact h.executeAll_succ ih hss hm

/-- Runs of matching scripts from similar machines end alike, under any limits. -/
theorem run {i : View} {script script' : Script} {env env' : Environment}
    (hs : List.Forall₂ (Code i) script script')
    (hm : Sim i (Interpreter.started (.on env)) (Interpreter.started (.on env')))
    (limits : Limits) :
    Outcome.Alike (Sim i) Same (Moment.ofRun limits env script).outcome
      (Moment.ofRun limits env' script').outcome :=
  h.below limits.steps i limits.depth (.block script) (.block script') _ _ (.block hs) hm

end Lockstep

end TurtleGraphics
