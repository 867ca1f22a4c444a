import Mathlib.Logic.Relation
import TurtleGraphics.Interpreter
import TurtleGraphics.Proofs.Effects

/-!
# TurtleGraphics.Proofs.Moments

The executions that happen inside an execution, and how to prove something about all of them.

* `Moment`        : something about to be executed, with the machine that executes it.
* `Moment.Calls`  : one execution starts another, as the definitions of `execute`, `executeLoop`,
  `executeBlock` and `executeAll` do.
* `Moment.Reaches` : the executions inside an execution, at any depth, itself included.
* `Moment.ofRun`  : the execution of a whole script by an interpreter that has not run anything.
* `Upholds`       : what has to be shown of single steps. It gives a fact about every outcome
  (`Upholds.outcome`), about every execution inside (`Upholds.reaches`), and about what happens
  from the end of that to the end of the whole (`Upholds.outcome_of_reaches`).
* `Moment.Fails`  : an execution ends early by itself.
* `Moment.gives_of_halted` : when an execution ends early, one inside it has done so by itself.

`Good` in `Upholds` is what a list of statements may rely on when it is executed, and `Keeps` is
what its execution guarantees, between the machine before it and the machine after it.
-/

namespace TurtleGraphics

/-- What is executed: a statement, a loop before its next turn, a block, or what is left of one. -/
inductive Task where
  | stmt (s : Stmt)
  | loop (condition : Expr) (block : List Stmt)
  | block (ss : List Stmt)
  | all (ss : List Stmt)

/-- The statements of a task; a loop that goes on is the loop itself. -/
def Task.stmts : Task → List Stmt
  | .stmt s => [s]
  | .loop condition ss => [.whileDo condition ss]
  | .block ss => ss
  | .all ss => ss

/-- Something about to be executed. -/
structure Moment where
  steps : Nat
  depth : Nat
  task : Task
  machine : Machine

namespace Moment

/-- How the execution ends. -/
def outcome : Moment → Outcome
  | ⟨steps, depth, .stmt s, m⟩ => execute steps depth s m
  | ⟨steps, depth, .loop condition block, m⟩ => executeLoop steps depth condition block m
  | ⟨steps, depth, .block ss, m⟩ => executeBlock steps depth ss m
  | ⟨steps, depth, .all ss, m⟩ => executeAll steps depth ss m

/-- One execution starts another. -/
inductive Calls : Moment → Moment → Prop where
  | ifThen {steps depth : Nat} {e : Expr} {block : List Stmt} {m : Machine} {v : Value} :
      e.eval m.env = .ok v → v.truthy = true →
      Calls ⟨steps + 1, depth, .stmt (.ifThen e block), m⟩ ⟨steps, depth, .block block, m⟩
  | whileDo {steps depth : Nat} {e : Expr} {block : List Stmt} {m : Machine} :
      Calls ⟨steps + 1, depth, .stmt (.whileDo e block), m⟩ ⟨steps, depth, .loop e block, m⟩
  | call {steps depth : Nat} {name : String} {arguments : List Expr} {scope : Scope}
      {body : List Stmt} {m : Machine} : enterCall m.env name arguments = .ok (scope, body) →
      Calls ⟨steps + 1, depth, .stmt (.call name arguments), m⟩
        ⟨steps, depth, .block body, m.pushScope scope⟩
  | turn {steps depth : Nat} {e : Expr} {block : List Stmt} {m : Machine} {v : Value} :
      e.eval m.env = .ok v → v.truthy = true →
      Calls ⟨steps + 1, depth, .loop e block, m⟩ ⟨steps, depth, .block block, m⟩
  | again {steps depth : Nat} {e : Expr} {block : List Stmt} {m m₁ : Machine} {v : Value} :
      e.eval m.env = .ok v → v.truthy = true → executeBlock steps depth block m = .done m₁ →
      Calls ⟨steps + 1, depth, .loop e block, m⟩ ⟨steps, depth, .loop e block, m₁⟩
  | enter {steps depth : Nat} {ss : List Stmt} {m : Machine} :
      Calls ⟨steps + 1, depth + 1, .block ss, m⟩ ⟨steps, depth, .all ss, m⟩
  | first {steps depth : Nat} {s : Stmt} {rest : List Stmt} {m : Machine} :
      Calls ⟨steps + 1, depth, .all (s :: rest), m⟩ ⟨steps, depth, .stmt s, m⟩
  | next {steps depth : Nat} {s : Stmt} {rest : List Stmt} {m m₁ : Machine} :
      execute steps depth s m = .done m₁ →
      Calls ⟨steps + 1, depth, .all (s :: rest), m⟩ ⟨steps, depth, .all rest, m₁⟩

/-- The second execution happens inside the first one, or is the first one. -/
abbrev Reaches : Moment → Moment → Prop := Relation.ReflTransGen Calls

/-- The execution of a whole script in an environment. -/
def ofRun (limits : Limits) (env : Environment) (script : Script) : Moment :=
  ⟨limits.steps, limits.depth, .block script, Interpreter.started (.on env)⟩

end Moment

/-! ## What every step keeps -/

/-- Good statements stay good on the way through their blocks and bodies, and every step of theirs
keeps what is to be kept. -/
structure Upholds (Good : List Stmt → Machine → Prop) (Keeps : Machine → Machine → Prop) :
    Prop where
  refl : ∀ m, Keeps m m
  trans : ∀ {m m₁ m₂}, Keeps m m₁ → Keeps m₁ m₂ → Keeps m m₂
  head : ∀ {s rest m}, Good (s :: rest) m → Good [s] m
  tail : ∀ {s rest m steps depth m₁}, Good (s :: rest) m →
    execute steps depth s m = .done m₁ → Keeps m m₁ → Good rest m₁
  ifThen : ∀ {e block m}, Good [.ifThen e block] m → Good block m
  whileDo : ∀ {e block m}, Good [.whileDo e block] m → Good block m
  again : ∀ {e block m m₁}, Good [.whileDo e block] m → Keeps m m₁ →
    Good [.whileDo e block] m₁
  body : ∀ {name arguments scope body m}, Good [.call name arguments] m →
    enterCall m.env name arguments = .ok (scope, body) → Good body (m.pushScope scope)
  command : ∀ {v operands target m env drawn}, Good [.command v operands target] m →
    perform m.env v operands target = .ok (env, drawn) → Keeps m (m.after env drawn)
  define : ∀ {name parameters body m}, Good [.define name parameters body] m →
    Keeps m (m.define name ⟨parameters, body⟩)
  leave : ∀ {scope m m₁}, Keeps (m.pushScope scope) m₁ → Keeps m m₁.popScope

theorem Outcome.machine_popScope (o : Outcome) : o.popScope.machine = o.machine.popScope := by
  cases o <;> rfl

namespace Upholds

variable {Good : List Stmt → Machine → Prop} {Keeps : Machine → Machine → Prop}

section

variable (h : Upholds Good Keeps) {steps : Nat}

/-- With so many steps, good statements keep what is to be kept. -/
def Below (Good : List Stmt → Machine → Prop) (Keeps : Machine → Machine → Prop) (steps : Nat) :
    Prop :=
  ∀ depth task m, Good task.stmts m → Keeps m (Moment.outcome ⟨steps, depth, task, m⟩).machine

include h

theorem execute_succ (ih : Below Good Keeps steps) {depth : Nat} {s : Stmt} {m : Machine}
    (hs : Good [s] m) : Keeps m (execute (steps + 1) depth s m).machine := by
  cases s with
  | command v operands target =>
    simp only [execute]
    split
    · exact h.refl m
    · rename_i hp
      exact h.command hs hp
  | ifThen e block =>
    simp only [execute]
    split
    · exact h.refl m
    · split
      · exact ih depth (.block block) m (h.ifThen hs)
      · exact h.refl m
  | whileDo e block => exact ih depth (.loop e block) m hs
  | define name parameters body => exact h.define hs
  | call name arguments =>
    simp only [execute]
    split
    · exact h.refl m
    · rename_i scope body hc
      rw [Outcome.machine_popScope]
      exact h.leave (ih depth (.block body) (m.pushScope scope) (h.body hs hc))
  | foreign shape => exact h.refl m

theorem executeLoop_succ (ih : Below Good Keeps steps) {depth : Nat} {e : Expr}
    {block : List Stmt} {m : Machine} (hs : Good [.whileDo e block] m) :
    Keeps m (executeLoop (steps + 1) depth e block m).machine := by
  have hblock := ih depth (.block block) m (h.whileDo hs)
  rw [Moment.outcome] at hblock
  rw [executeLoop]
  split
  · exact h.refl m
  · split
    · cases ho : executeBlock steps depth block m with
      | halted why m₁ =>
        rw [ho] at hblock
        exact hblock
      | done m₁ =>
        rw [ho] at hblock
        exact h.trans hblock (ih depth (.loop e block) m₁ (h.again hs hblock))
    · exact h.refl m

theorem executeAll_succ (ih : Below Good Keeps steps) {depth : Nat} {ss : List Stmt}
    {m : Machine} (hss : Good ss m) : Keeps m (executeAll (steps + 1) depth ss m).machine := by
  cases ss with
  | nil => exact h.refl m
  | cons s rest =>
    have hfirst := ih depth (.stmt s) m (h.head hss)
    rw [Moment.outcome] at hfirst
    rw [executeAll]
    cases ho : execute steps depth s m with
    | halted why m₁ =>
      rw [ho] at hfirst
      exact hfirst
    | done m₁ =>
      rw [ho] at hfirst
      exact h.trans hfirst (ih depth (.all rest) m₁ (h.tail hss ho hfirst))

theorem below (steps : Nat) : Below Good Keeps steps := by
  -- All four kinds of task at once, since each of them starts tasks of other kinds.
  induction steps with
  | zero =>
    intro depth task m _
    cases task <;> exact h.refl m
  | succ steps ih =>
    intro depth task m hg
    cases task with
    | stmt s => exact h.execute_succ ih hg
    | loop e block => exact h.executeLoop_succ ih hg
    | block ss =>
      cases depth with
      | zero => exact h.refl m
      | succ depth => exact ih depth (.all ss) m hg
    | all ss => exact h.executeAll_succ ih hg

theorem outcome {c : Moment} (hc : Good c.task.stmts c.machine) :
    Keeps c.machine c.outcome.machine :=
  h.below c.steps c.depth c.task c.machine hc

theorem calls {c c' : Moment} (hc : Good c.task.stmts c.machine) (hcall : c.Calls c') :
    Good c'.task.stmts c'.machine := by
  cases hcall with
  | ifThen _ _ => exact h.ifThen hc
  | whileDo => exact hc
  | call henter => exact h.body hc henter
  | turn _ _ => exact h.whileDo hc
  | @again steps depth e block m m₁ v _ _ ho =>
    have hkeeps := h.below steps depth (.block block) m (h.whileDo hc)
    rw [Moment.outcome, ho] at hkeeps
    exact h.again hc hkeeps
  | enter => exact hc
  | first => exact h.head hc
  | @next steps depth s rest m m₁ ho =>
    have hkeeps := h.below steps depth (.stmt s) m (h.head hc)
    rw [Moment.outcome, ho] at hkeeps
    exact h.tail hc ho hkeeps

theorem reaches {c c' : Moment} (hc : Good c.task.stmts c.machine) (hr : c.Reaches c') :
    Good c'.task.stmts c'.machine := by
  induction hr with
  | refl => exact hc
  | tail _ hcall ih => exact h.calls ih hcall

/-- What happens after the end of an inner execution also keeps what every step keeps. -/
theorem outcome_of_calls {c c' : Moment} (hpop : ∀ m, Keeps m m.popScope)
    (hc : Good c.task.stmts c.machine) (hcall : c.Calls c') :
    Keeps c'.outcome.machine c.outcome.machine := by
  cases hcall with
  | ifThen he hv =>
    simp only [Moment.outcome, execute, he, hv, if_true]
    exact h.refl _
  | whileDo => exact h.refl _
  | call henter =>
    simp only [Moment.outcome, execute, henter, Outcome.machine_popScope]
    exact hpop _
  | @turn steps depth e block m v he hv =>
    have hkeeps := h.below steps depth (.block block) m (h.whileDo hc)
    simp only [Moment.outcome, executeLoop, he, hv, if_true] at hkeeps ⊢
    cases ho : executeBlock steps depth block m with
    | halted why m₁ => exact h.refl m₁
    | done m₁ =>
      rw [ho] at hkeeps
      exact h.below steps depth (.loop e block) m₁ (h.again hc hkeeps)
  | again he hv ho =>
    simp only [Moment.outcome, executeLoop, he, hv, ho, if_true]
    exact h.refl _
  | enter => exact h.refl _
  | @first steps depth s rest m =>
    have hkeeps := h.below steps depth (.stmt s) m (h.head hc)
    simp only [Moment.outcome, executeAll] at hkeeps ⊢
    cases ho : execute steps depth s m with
    | halted why m₁ => exact h.refl m₁
    | done m₁ =>
      rw [ho] at hkeeps
      exact h.below steps depth (.all rest) m₁ (h.tail hc ho hkeeps)
  | next ho =>
    simp only [Moment.outcome, executeAll, ho]
    exact h.refl _

theorem outcome_of_reaches {c c' : Moment} (hpop : ∀ m, Keeps m m.popScope)
    (hc : Good c.task.stmts c.machine) (hr : c.Reaches c') :
    Keeps c'.outcome.machine c.outcome.machine := by
  induction hr with
  | refl => exact h.refl _
  | tail hr hcall ih => exact h.trans (h.outcome_of_calls hpop (h.reaches hc hr) hcall) ih

end

/-- What every step keeps of a machine alone is kept by everything. -/
theorem of_machine {Keeps : Machine → Machine → Prop} (refl : ∀ m, Keeps m m)
    (trans : ∀ {m m₁ m₂}, Keeps m m₁ → Keeps m₁ m₂ → Keeps m m₂)
    (command : ∀ {v operands target m env drawn},
      perform m.env v operands target = .ok (env, drawn) → Keeps m (m.after env drawn))
    (define : ∀ m name p, Keeps m (m.define name p))
    (leave : ∀ {scope m m₁}, Keeps (m.pushScope scope) m₁ → Keeps m m₁.popScope) :
    Upholds (fun _ _ => True) Keeps where
  refl := refl
  trans := trans
  head _ := trivial
  tail _ _ _ := trivial
  ifThen _ := trivial
  whileDo _ := trivial
  again _ _ := trivial
  body _ _ := trivial
  command _ hp := command hp
  define _ := define _ _ _
  leave := leave

/-- What holds of a machine through every step holds of it all the way. -/
theorem of_invariant {Inv : Machine → Prop}
    (command : ∀ {v operands target m env drawn}, Inv m →
      perform m.env v operands target = .ok (env, drawn) → Inv (m.after env drawn))
    (define : ∀ m name p, Inv m → Inv (m.define name p))
    (push : ∀ m scope, Inv m → Inv (m.pushScope scope))
    (pop : ∀ m, Inv m → Inv m.popScope) :
    Upholds (fun _ => Inv) (fun m m' => Inv m → Inv m') where
  refl _ hm := hm
  trans h₁ h₂ hm := h₂ (h₁ hm)
  head hm := hm
  tail hm _ hkeeps := hkeeps hm
  ifThen hm := hm
  whileDo hm := hm
  again hm hkeeps := hkeeps hm
  body hm _ := push _ _ hm
  command _ hp hm := command hm hp
  define _ hm := define _ _ _ hm
  leave h hm := pop _ (h (push _ _ hm))

end Upholds

/-! ## Where the ends of executions come from -/

/-- What is executed ends early by itself, before it executes anything inside. -/
inductive Moment.Fails : Moment → Halt → Prop where
  | command {steps depth : Nat} {v : Verb} {operands : List Expr} {target : Option String}
      {m : Machine} {why : Halt} : perform m.env v operands target = .error why →
      Fails ⟨steps + 1, depth, .stmt (.command v operands target), m⟩ why
  | ifThen {steps depth : Nat} {e : Expr} {block : List Stmt} {m : Machine} {f : Fault} :
      e.eval m.env = .error f →
      Fails ⟨steps + 1, depth, .stmt (.ifThen e block), m⟩ (.error ⟨f, none⟩)
  | loop {steps depth : Nat} {e : Expr} {block : List Stmt} {m : Machine} {f : Fault} :
      e.eval m.env = .error f → Fails ⟨steps + 1, depth, .loop e block, m⟩ (.error ⟨f, none⟩)
  | call {steps depth : Nat} {name : String} {arguments : List Expr} {m : Machine} {f : Fault} :
      enterCall m.env name arguments = .error f →
      Fails ⟨steps + 1, depth, .stmt (.call name arguments), m⟩ (.error ⟨f, none⟩)
  | foreign {steps depth : Nat} {shape : Shape} {m : Machine} :
      Fails ⟨steps + 1, depth, .stmt (.foreign shape), m⟩
        (.error ⟨.misfit (.notStatement shape), none⟩)
  | tooDeep {steps : Nat} {ss : List Stmt} {m : Machine} :
      Fails ⟨steps + 1, 0, .block ss, m⟩ .tooDeep
  | outOfSteps {depth : Nat} {task : Task} {m : Machine} : Fails ⟨0, depth, task, m⟩ .outOfSteps

theorem Halt.error_of_inStatement {s : Stmt} {why : Halt} {f : Fault} {context : Option String}
    (h : why.inStatement s = .error ⟨f, context⟩) : ∃ inner, why = .error ⟨f, inner⟩ := by
  unfold Halt.inStatement at h
  split at h
  · split at h
    · cases h
      exact ⟨_, rfl⟩
    · cases h
  · exact ⟨_, h⟩

/-- An error is named after the innermost statement only. -/
theorem Halt.inStatement_inStatement (s outer : Stmt) (why : Halt) :
    (why.inStatement s).inStatement outer = why.inStatement s := by
  cases why with
  | error e =>
    obtain ⟨f, context⟩ := e
    cases context with
    | some text => rfl
    | none =>
      simp only [Halt.inStatement]
      cases s.summary <;> rfl
  | _ => rfl

theorem Outcome.halted_of_popScope {o : Outcome} {why : Halt} {m : Machine}
    (h : o.popScope = .halted why m) : ∃ inner, o = .halted why inner := by
  cases o with
  | done m₁ => cases h
  | halted why₁ m₁ =>
    cases h
    exact ⟨m₁, rfl⟩

namespace Moment

/-- An end as something inside an execution gave it, or as it was named after a statement inside. -/
def Gives (c : Moment) (why : Halt) : Prop :=
  ∃ c' own, c.Reaches c' ∧ c'.Fails own ∧
    (why = own ∨ ∃ inner s, c.Reaches inner ∧ inner.task = .stmt s ∧ why = own.inStatement s)

variable {steps depth : Nat} {c c₁ : Moment} {m m' : Machine} {why : Halt}

theorem Gives.self (h : c.Fails why) : c.Gives why := ⟨c, why, .refl, h, .inl rfl⟩

theorem Gives.calls (hcall : c.Calls c₁) (h : c₁.Gives why) : c.Gives why := by
  obtain ⟨c', own, hr, hfails, rfl | ⟨inner, s, hinner, htask, rfl⟩⟩ := h
  · exact ⟨c', why, .head hcall hr, hfails, .inl rfl⟩
  · exact ⟨c', own, .head hcall hr, hfails, .inr ⟨inner, s, .head hcall hinner, htask, rfl⟩⟩

theorem Gives.inStatement {s : Stmt} (htask : c.task = .stmt s) (h : c.Gives why) :
    c.Gives (why.inStatement s) := by
  obtain ⟨c', own, hr, hfails, rfl | ⟨inner, t, hinner, ht, rfl⟩⟩ := h
  · exact ⟨c', why, hr, hfails, .inr ⟨c, s, .refl, htask, rfl⟩⟩
  · rw [Halt.inStatement_inStatement]
    exact ⟨c', own, hr, hfails, .inr ⟨inner, t, hinner, ht, rfl⟩⟩

/-- An end of an execution with fewer steps was given inside of it. -/
def GivesBelow (steps : Nat) : Prop :=
  ∀ depth task {m why m'}, outcome ⟨steps, depth, task, m⟩ = .halted why m' →
    Gives ⟨steps, depth, task, m⟩ why

theorem gives_of_execute (ih : GivesBelow steps) {s : Stmt}
    (h : execute (steps + 1) depth s m = .halted why m') :
    Gives ⟨steps + 1, depth, .stmt s, m⟩ why := by
  cases s with
  | command v operands target =>
    simp only [execute] at h
    split at h
    · rename_i he
      cases h
      exact .self (.command he)
    · cases h
  | ifThen e block =>
    simp only [execute, Halt.ofFault] at h
    split at h
    · rename_i he
      cases h
      exact .self (.ifThen he)
    · rename_i he
      split at h
      · rename_i hv
        exact .calls (.ifThen he hv) (ih depth (.block block) h)
      · cases h
  | whileDo e block => exact .calls .whileDo (ih depth (.loop e block) h)
  | define name parameters body => cases h
  | call name arguments =>
    simp only [execute, Halt.ofFault] at h
    split at h
    · rename_i he
      cases h
      exact .self (.call he)
    · rename_i scope body he
      obtain ⟨inner, hinner⟩ := Outcome.halted_of_popScope h
      exact .calls (.call he) (ih depth (.block body) hinner)
  | foreign shape =>
    simp only [execute, Halt.ofFault] at h
    cases h
    exact .self .foreign

theorem gives_of_executeLoop (ih : GivesBelow steps) {e : Expr} {block : List Stmt}
    (h : executeLoop (steps + 1) depth e block m = .halted why m') :
    Gives ⟨steps + 1, depth, .loop e block, m⟩ why := by
  simp only [executeLoop, Halt.ofFault] at h
  split at h
  · rename_i he
    cases h
    exact .self (.loop he)
  · rename_i he
    split at h
    · rename_i hv
      split at h
      · rename_i hb
        cases h
        exact .calls (.turn he hv) (ih depth (.block block) hb)
      · rename_i hb
        exact .calls (.again he hv hb) (ih depth (.loop e block) h)
    · cases h

theorem gives_of_executeAll (ih : GivesBelow steps) {ss : List Stmt}
    (h : executeAll (steps + 1) depth ss m = .halted why m') :
    Gives ⟨steps + 1, depth, .all ss, m⟩ why := by
  cases ss with
  | nil => cases h
  | cons s rest =>
    simp only [executeAll] at h
    split at h
    · rename_i hs
      cases h
      exact .calls .first (.inStatement rfl (ih depth (.stmt s) hs))
    · rename_i hs
      exact .calls (.next hs) (ih depth (.all rest) h)

theorem givesBelow (steps : Nat) : GivesBelow steps := by
  induction steps with
  | zero =>
    intro depth task m why m' h
    cases task <;>
    · cases h
      exact .self .outOfSteps
  | succ steps ih =>
    intro depth task m why m' h
    cases task with
    | stmt s => exact gives_of_execute ih h
    | loop e block => exact gives_of_executeLoop ih h
    | block ss =>
      cases depth with
      | zero =>
        cases h
        exact .self .tooDeep
      | succ depth => exact .calls .enter (ih depth (.all ss) h)
    | all ss => exact gives_of_executeAll ih h

theorem gives_of_halted (h : c.outcome = .halted why m') : c.Gives why :=
  givesBelow c.steps c.depth c.task h

/-- A fault that ends an execution was raised by a single step inside it. -/
theorem raised_of_halted {f : Fault} {context : Option String}
    (h : c.outcome = .halted (.error ⟨f, context⟩) m') :
    ∃ c' inner, c.Reaches c' ∧ c'.Fails (.error ⟨f, inner⟩) := by
  obtain ⟨c', own, hr, hfails, rfl | ⟨_, s, -, -, hown⟩⟩ := gives_of_halted h
  · exact ⟨c', context, hr, hfails⟩
  · obtain ⟨inner, rfl⟩ := Halt.error_of_inStatement hown.symm
    exact ⟨c', inner, hr, hfails⟩

/-- An end that no statement is named after goes through everything that it ends. -/
theorem halted_of_calls (hwhy : ∀ s, why.inStatement s = why) (hcall : c.Calls c₁)
    (h : ∃ m', c₁.outcome = .halted why m') : ∃ m', c.outcome = .halted why m' := by
  obtain ⟨m', ho⟩ := h
  cases hcall with
  | ifThen he hv => exact ⟨m', by simpa only [outcome, execute, he, hv, if_true] using ho⟩
  | whileDo => exact ⟨m', ho⟩
  | call henter =>
    simp only [outcome] at ho
    exact ⟨m'.popScope, by simp only [outcome, execute, henter, ho, Outcome.popScope]⟩
  | turn he hv =>
    simp only [outcome] at ho
    exact ⟨m', by simp only [outcome, executeLoop, he, hv, ho, if_true]⟩
  | again he hv hb => exact ⟨m', by simpa only [outcome, executeLoop, he, hv, hb, if_true] using ho⟩
  | enter => exact ⟨m', ho⟩
  | first =>
    simp only [outcome] at ho
    exact ⟨m', by simp only [outcome, executeAll, ho, hwhy]⟩
  | next hs => exact ⟨m', by simpa only [outcome, executeAll, hs] using ho⟩

theorem halted_of_reaches (hwhy : ∀ s, why.inStatement s = why) (hr : c.Reaches c₁)
    (h : ∃ m', c₁.outcome = .halted why m') : ∃ m', c.outcome = .halted why m' := by
  induction hr with
  | refl => exact h
  | tail _ hcall ih => exact ih (halted_of_calls hwhy hcall h)

end Moment

/-! ## Runs -/

/-- Why an execution has ended early, if it has. -/
def Outcome.halt? : Outcome → Option Halt
  | .done _ => none
  | .halted why _ => some why

theorem Outcome.exists_of_halt? {o : Outcome} {why : Halt} (h : o.halt? = some why) :
    ∃ m, o = .halted why m := by
  cases o with
  | done m => cases h
  | halted w m =>
    cases h
    exact ⟨m, rfl⟩

namespace Interpreter

variable (limits : Limits) (env : Environment) (script : Script)

theorem primitives_run :
    ((Interpreter.on env).run limits script).1.primitives =
      (Moment.ofRun limits env script).outcome.machine.primitives.toList := by
  simp only [run, on, Moment.ofRun, Moment.outcome, Machine.execute, primitives]
  split <;> rename_i ho <;> rw [ho] <;> rfl

theorem env_run :
    ((Interpreter.on env).run limits script).1.env =
      (Moment.ofRun limits env script).outcome.machine.env := by
  simp only [run, on, Moment.ofRun, Moment.outcome, Machine.execute, Interpreter.env]
  split <;> rename_i ho <;> rw [ho] <;> rfl

theorem halt_run :
    ((Interpreter.on env).run limits script).2 =
      (Moment.ofRun limits env script).outcome.halt? := by
  simp only [run, on, Moment.ofRun, Moment.outcome, Machine.execute]
  split <;> rename_i ho <;> rw [ho] <;> rfl

end Interpreter

end TurtleGraphics
