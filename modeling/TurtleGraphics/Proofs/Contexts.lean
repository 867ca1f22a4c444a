import TurtleGraphics.Proofs.Endings
import TurtleGraphics.Proofs.Failures

/-!
# TurtleGraphics.Proofs.Contexts

Which statement an error is named after.

* `Task.own?`          : the statement whose step a task takes, if it is not a list of statements.
* `Moment.Raises`      : the step of a statement raises a fault.
* `Moment.named_of_reaches` : a fault that is raised inside a block leaves it with the summary of
  the statement that raised it.
* `run_names_innermost` : so this is the context of every error of a run.

The condition of a loop is evaluated again after each of its turns, in a task of its own; the step
is that of the loop then, too.
-/

namespace TurtleGraphics

/-- The statement of a task that is not a list of statements. -/
def Task.own? : Task → Option Stmt
  | .stmt s => some s
  | .loop condition ss => some (.whileDo condition ss)
  | .block _ => none
  | .all _ => none

theorem Task.stmts_of_own? {task : Task} {s : Stmt} (h : task.own? = some s) :
    task.stmts = [s] := by
  cases task with
  | stmt t => cases h; rfl
  | loop condition block => cases h; rfl
  | block ss => cases h
  | all ss => cases h

namespace Moment

/-- The step of a statement raises a fault before anything inside the statement is executed: a
command in what it does, an `IF` or a `WHILE` in its condition, a call before it is entered. -/
inductive Raises : Moment → Stmt → Fault → Prop where
  | command {steps depth : Nat} {v : Verb} {operands : List Expr} {target : Option String}
      {m : Machine} {f : Fault} : perform m.env v operands target = .error (.ofFault f) →
      Raises ⟨steps + 1, depth, .stmt (.command v operands target), m⟩
        (.command v operands target) f
  | ifThen {steps depth : Nat} {e : Expr} {block : List Stmt} {m : Machine} {f : Fault} :
      e.eval m.env = .error f →
      Raises ⟨steps + 1, depth, .stmt (.ifThen e block), m⟩ (.ifThen e block) f
  | whileDo {steps depth : Nat} {e : Expr} {block : List Stmt} {m : Machine} {f : Fault} :
      e.eval m.env = .error f →
      Raises ⟨steps + 1, depth, .loop e block, m⟩ (.whileDo e block) f
  | call {steps depth : Nat} {name : String} {arguments : List Expr} {m : Machine} {f : Fault} :
      CallRefused m.env name arguments f →
      Raises ⟨steps + 1, depth, .stmt (.call name arguments), m⟩ (.call name arguments) f

variable {c c₁ : Moment} {s : Stmt} {f : Fault} {why : Halt}

theorem Raises.own?_eq (h : c.Raises s f) : c.task.own? = some s := by
  cases h <;> rfl

theorem Raises.fails (h : c.Raises s f) : c.Fails (.ofFault f) := by
  cases h with
  | command hp => exact .command hp
  | ifThen he => exact .ifThen he
  | whileDo he => exact .loop he
  | call hc => exact .call (enterCall_eq_error_iff.mpr hc)

/-- Faults come from the steps of statements, where every statement is one. -/
theorem Fails.raises {context : Option String} (h : c.Fails (.error ⟨f, context⟩))
    (hshown : ∀ s, c.task.own? = some s → ∃ text, s.summary = .ok text) :
    ∃ s, c.Raises s f := by
  cases h with
  | command hp =>
    cases failsWith_of_perform hp with
    | fault _ => exact ⟨_, .command hp⟩
  | ifThen he => exact ⟨_, .ifThen he⟩
  | loop he => exact ⟨_, .whileDo he⟩
  | call hc => exact ⟨_, .call (enterCall_eq_error_iff.mp hc)⟩
  | foreign =>
    obtain ⟨text, htext⟩ := hshown _ rfl
    cases htext

/-- An end that a statement gives is named after it by the list in which it stands, and by nothing
around that. A loop passes it on from turn to turn without a name. -/
theorem named_of_reaches (hr : c.Reaches c₁) (hown : c₁.task.own? = some s)
    (h : ∃ m, c₁.outcome = .halted why m) :
    (c.task.own? = some s ∧ ∃ m, c.outcome = .halted why m) ∨
      ∃ m, c.outcome = .halted (why.inStatement s) m := by
  -- From the statement outwards: up to the list in which it stands the end has no name yet.
  induction hr using Relation.ReflTransGen.head_induction_on with
  | refl => exact .inl ⟨hown, h⟩
  | head hcall _ ih =>
    obtain ⟨hown, ho⟩ | hnamed := ih
    · cases hcall with
      | whileDo => exact .inl ⟨hown, ho⟩
      | again he hv hb =>
        obtain ⟨m, ho⟩ := ho
        refine .inl ⟨hown, m, ?_⟩
        simpa only [outcome, executeLoop, he, hv, hb, if_true] using ho
      | first =>
        cases hown
        obtain ⟨m, ho⟩ := ho
        simp only [outcome] at ho
        exact .inr ⟨m, by simp only [outcome, executeAll, ho]⟩
      | _ => cases hown
    · exact .inr (halted_of_calls (fun outer => Halt.inStatement_inStatement s outer why)
        hcall hnamed)

end Moment

/-! ## Runs -/

theorem Linked.own_shown {script : Script} {c : Moment} {s : Stmt}
    (h : Linked script c.task.stmts c.machine) (hown : c.task.own? = some s) :
    ∃ text, s.summary = .ok text := by
  rw [Task.stmts_of_own? hown] at h
  exact h.shown

theorem Moment.Raises.run_eq {limits : Limits} {env : Environment} {script : Script} {c : Moment}
    {s : Stmt} {f : Fault} {text : String} (h : c.Raises s f)
    (hr : (Moment.ofRun limits env script).Reaches c) (htext : s.summary = .ok text) :
    ((Interpreter.on env).run limits script).2 = some (.error ⟨f, some text⟩) := by
  obtain ⟨hown, -⟩ | ⟨m, ho⟩ := Moment.named_of_reaches hr h.own?_eq ⟨_, h.fails.outcome⟩
  · cases hown
  · rw [Interpreter.halt_run, ho]
    simp only [Outcome.halt?, Halt.ofFault, Halt.inStatement, htext]

/-- When a script that was parsed ends in an error, the step of a statement has raised its fault,
and its context is the summary of that statement. And whatever step of a statement raises a fault,
at any depth of blocks, loops and calls, the run ends in this fault with this context. -/
theorem run_names_innermost {limit : Nat} {tokens : List Token} {script : Script}
    (h : (parse limit tokens).1 = .ok script) {env : Environment}
    (henv : env.procedures = .empty) (limits : Limits) :
    (∀ e, ((Interpreter.on env).run limits script).2 = some (.error e) →
      ∃ c s text, (Moment.ofRun limits env script).Reaches c ∧ c.Raises s e.fault ∧
        s.summary = .ok text ∧ e.context = some text) ∧
    ∀ c s f, (Moment.ofRun limits env script).Reaches c → c.Raises s f →
      ∃ text, s.summary = .ok text ∧
        ((Interpreter.on env).run limits script).2 = some (.error ⟨f, some text⟩) := by
  have hstart := linked_started (derived_of_parse h).1 henv limits
  have hshown : ∀ {c}, (Moment.ofRun limits env script).Reaches c →
      ∀ s, c.task.own? = some s → ∃ text, s.summary = .ok text :=
    fun hr _ hown => ((upholds_linked script).reaches hstart hr).own_shown hown
  constructor
  · rintro ⟨f, context⟩ hrun
    have hhalt := hrun
    rw [Interpreter.halt_run] at hhalt
    obtain ⟨m, ho⟩ := Outcome.exists_of_halt? hhalt
    obtain ⟨c, _, hr, hfails⟩ := Moment.raised_of_halted ho
    obtain ⟨s, hraises⟩ := hfails.raises (hshown hr)
    obtain ⟨text, htext⟩ := hshown hr s hraises.own?_eq
    rw [hraises.run_eq hr htext] at hrun
    cases hrun
    exact ⟨c, s, text, hr, hraises, htext, rfl⟩
  · intro c s f hr hraises
    obtain ⟨text, htext⟩ := hshown hr s hraises.own?_eq
    exact ⟨text, htext, hraises.run_eq hr htext⟩

/-- The division is by a parameter, in a loop in the body of a procedure that is called in a
block. -/
theorem run_names_innermost_nested :
    let script : Script := [.define "P" ["a"] [.whileDo (.boolean true)
        [.command .forward [.numeric .div (.boolean true) (.variable "a")] none]],
      .ifThen (.boolean true) [.call "P" [.boolean false]]]
    ∃ c s, (Moment.ofRun ⟨9, 99⟩ (.fresh (.startingAt 0.0 0.0)) script).Reaches c ∧
      c.Raises s .divisionByZero ∧ s.summary = .ok "FORWARD / \"TRUE :a" ∧
      ((Interpreter.on (.fresh (.startingAt 0.0 0.0))).run ⟨9, 99⟩ script).2 =
        some (.error ⟨.divisionByZero, some "FORWARD / \"TRUE :a"⟩) := by
  intro script
  have hparse : (parse 9 [.ofWord "TO", .ofWord "P", .ofQuoted "a", .ofWord "WHILE",
      .ofQuoted "TRUE", .opening, .ofWord "FORWARD", .ofWord "/", .ofQuoted "TRUE",
      ⟨.variable, "a"⟩, .closing, .ofWord "END", .ofWord "IF", .ofQuoted "TRUE", .opening,
      .ofWord "P", .ofQuoted "FALSE", .closing]).1 = .ok script := by
    with_unfolding_all rfl
  have hrun : ((Interpreter.on (.fresh (.startingAt 0.0 0.0))).run ⟨9, 99⟩ script).2 =
      some (.error ⟨.divisionByZero, some "FORWARD / \"TRUE :a"⟩) := rfl
  have hfresh : (Environment.fresh (.startingAt 0.0 0.0)).procedures = .empty := rfl
  obtain ⟨c, s, text, hr, hraises, htext, hcontext⟩ :=
    (run_names_innermost hparse hfresh ⟨9, 99⟩).1 _ hrun
  cases hcontext
  exact ⟨c, s, hr, hraises, htext, hrun⟩

end TurtleGraphics
