import TurtleGraphics.Proofs.Moments

/-!
# TurtleGraphics.Proofs.Limits

Executions with room to spare.

* `Halt.isLimit`         : a run was ended by one of its limits.
* `Moment.outcome_of_le` : what no limit has ended ends in the same way under higher limits.
* `Ends`                 : how an execution ends that may take as many steps as it needs.
* `Interpreter.Finishes` : the same of a run; it can finish in one way only.

The number of steps makes the recursion of the definitions end and means nothing else. So a run of
a script is its run with steps enough, and a script that needs more steps than any number does not
finish.
-/

namespace TurtleGraphics

/-- Whether a run was ended by one of its limits. -/
def Halt.isLimit : Halt → Bool
  | .tooDeep => true
  | .outOfSteps => true
  | _ => false

/-- The limits have not ended an execution, or only the depth has, and `more` is no more depth. -/
structure Outcome.Settled (more : Nat) (o : Outcome) : Prop where
  steps : o.halt? ≠ some .outOfSteps
  depth : o.halt? = some .tooDeep → more = 0

/-- No error, and so no end that an error is named in, is a limit. -/
theorem Halt.inStatement_eq_iff {s : Stmt} {why limit : Halt} (hlimit : limit.isLimit = true) :
    why.inStatement s = limit ↔ why = limit := by
  unfold Halt.inStatement
  split
  · split <;>
    · constructor <;> rintro rfl <;> cases hlimit
  · exact Iff.rfl

@[simp] theorem Outcome.halt?_popScope (o : Outcome) : o.popScope.halt? = o.halt? := by
  cases o <;> rfl

theorem Outcome.halt?_done_ne (m : Machine) (why : Halt) :
    (Outcome.done m).halt? ≠ some why := nofun

namespace Outcome.Settled

variable {more : Nat} {o : Outcome}

theorem of_popScope (h : o.popScope.Settled more) : o.Settled more := by
  obtain ⟨hsteps, hdepth⟩ := h
  rw [halt?_popScope] at hsteps hdepth
  exact ⟨hsteps, hdepth⟩

theorem of_inStatement {s : Stmt} {why : Halt} {m : Machine}
    (h : (Outcome.halted (why.inStatement s) m).Settled more) :
    (Outcome.halted why m).Settled more := by
  obtain ⟨hsteps, hdepth⟩ := h
  constructor
  · intro hwhy
    exact hsteps (congrArg some ((Halt.inStatement_eq_iff rfl).mpr (Option.some.inj hwhy)))
  · intro hwhy
    exact hdepth (congrArg some ((Halt.inStatement_eq_iff rfl).mpr (Option.some.inj hwhy)))

theorem done (m : Machine) : (Outcome.done m).Settled more := ⟨nofun, nofun⟩

theorem of_not_isLimit (h : ∀ why, o.halt? = some why → why.isLimit = false) (more : Nat) :
    o.Settled more :=
  ⟨fun hwhy => Bool.noConfusion (h _ hwhy), fun hwhy => Bool.noConfusion (h _ hwhy)⟩

end Outcome.Settled

/-! ## Higher limits -/

namespace Moment

variable {more steps steps' depth : Nat} {m : Machine}

/-- With so many steps, what is settled stays so under higher limits. -/
def StableBelow (more steps : Nat) : Prop :=
  ∀ steps' depth task m, steps ≤ steps' →
    (outcome ⟨steps, depth, task, m⟩).Settled more →
    outcome ⟨steps', depth + more, task, m⟩ = outcome ⟨steps, depth, task, m⟩

theorem execute_of_le (ih : StableBelow more steps) (hle : steps ≤ steps') {s : Stmt}
    (h : (execute (steps + 1) depth s m).Settled more) :
    execute (steps' + 1) (depth + more) s m = execute (steps + 1) depth s m := by
  cases s with
  | command v operands target => rfl
  | ifThen e block =>
    simp only [execute] at h ⊢
    cases he : e.eval m.env with
    | error f => rfl
    | ok v =>
      simp only [he] at h ⊢
      split
      · rename_i hv
        rw [if_pos hv] at h
        exact ih steps' depth (.block block) m hle h
      · rfl
  | whileDo e block => exact ih steps' depth (.loop e block) m hle h
  | define name parameters body => rfl
  | call name arguments =>
    simp only [execute] at h ⊢
    cases hc : enterCall m.env name arguments with
    | error f => rfl
    | ok call =>
      obtain ⟨scope, body⟩ := call
      simp only [hc] at h ⊢
      exact congrArg Outcome.popScope
        (ih steps' depth (.block body) (m.pushScope scope) hle h.of_popScope)
  | foreign shape => rfl

theorem executeLoop_of_le (ih : StableBelow more steps) (hle : steps ≤ steps') {e : Expr}
    {block : List Stmt} (h : (executeLoop (steps + 1) depth e block m).Settled more) :
    executeLoop (steps' + 1) (depth + more) e block m =
      executeLoop (steps + 1) depth e block m := by
  simp only [executeLoop] at h ⊢
  cases he : e.eval m.env with
  | error f => rfl
  | ok v =>
    simp only [he] at h ⊢
    split
    · rename_i hv
      rw [if_pos hv] at h
      have hblock := ih steps' depth (.block block) m hle
      simp only [outcome] at hblock
      cases hb : executeBlock steps depth block m with
      | halted why m₁ =>
        rw [hb] at h hblock
        rw [hblock h]
      | done m₁ =>
        rw [hb] at h hblock
        rw [hblock (.done m₁)]
        exact ih steps' depth (.loop e block) m₁ hle h
    · rfl

theorem executeAll_of_le (ih : StableBelow more steps) (hle : steps ≤ steps') {ss : List Stmt}
    (h : (executeAll (steps + 1) depth ss m).Settled more) :
    executeAll (steps' + 1) (depth + more) ss m = executeAll (steps + 1) depth ss m := by
  cases ss with
  | nil => rfl
  | cons s rest =>
    simp only [executeAll] at h ⊢
    have hfirst := ih steps' depth (.stmt s) m hle
    simp only [outcome] at hfirst
    cases hs : execute steps depth s m with
    | halted why m₁ =>
      rw [hs] at h hfirst
      rw [hfirst h.of_inStatement]
    | done m₁ =>
      rw [hs] at h hfirst
      rw [hfirst (.done m₁)]
      exact ih steps' depth (.all rest) m₁ hle h

theorem stableBelow (more steps : Nat) : StableBelow more steps := by
  induction steps with
  | zero =>
    intro steps' depth task m _ h
    cases task <;> exact absurd rfl h.steps
  | succ steps ih =>
    intro steps' depth task m hle h
    obtain ⟨steps', rfl⟩ := Nat.exists_eq_add_of_le' (Nat.le_of_add_left_le hle)
    have hle := Nat.le_of_succ_le_succ hle
    cases task with
    | stmt s => exact execute_of_le ih hle h
    | loop e block => exact executeLoop_of_le ih hle h
    | block ss =>
      cases depth with
      | zero =>
        rw [h.depth rfl]
        rfl
      | succ depth =>
        rw [Nat.add_right_comm]
        exact ih _ depth (.all ss) m hle h
    | all ss => exact executeAll_of_le ih hle h

/-- An execution that its limits have not ended ends in the same way under higher ones. -/
theorem outcome_of_le {task : Task} (hle : steps ≤ steps') (more : Nat)
    (h : (outcome ⟨steps, depth, task, m⟩).Settled more) :
    outcome ⟨steps', depth + more, task, m⟩ = outcome ⟨steps, depth, task, m⟩ :=
  stableBelow more steps steps' depth task m hle h

end Moment

/-! ## Steps enough -/

/-- An execution ends so with as many steps as it needs, or with more. -/
def Ends (depth : Nat) (task : Task) (m : Machine) (o : Outcome) : Prop :=
  o.halt? ≠ some .outOfSteps ∧
    ∃ enough, ∀ steps, enough ≤ steps → Moment.outcome ⟨steps, depth, task, m⟩ = o

namespace Ends

variable {depth steps : Nat} {task : Task} {m m₁ : Machine} {o : Outcome}

theorem of_outcome (h : Moment.outcome ⟨steps, depth, task, m⟩ = o)
    (ho : o.halt? ≠ some .outOfSteps) : Ends depth task m o := by
  refine ⟨ho, steps, fun steps' hle => ?_⟩
  subst h
  exact Moment.outcome_of_le hle 0 ⟨ho, fun _ => rfl⟩

theorem unique {o' : Outcome} (h : Ends depth task m o) (h' : Ends depth task m o') :
    o = o' := by
  obtain ⟨-, enough, he⟩ := h
  obtain ⟨-, enough', he'⟩ := h'
  rw [← he _ (Nat.le_max_left enough enough'), he' _ (Nat.le_max_right enough enough')]

/-- An execution may be looked at behind its first step. -/
theorem of_succ (ho : o.halt? ≠ some .outOfSteps) (enough : Nat)
    (h : ∀ steps, enough ≤ steps → Moment.outcome ⟨steps + 1, depth, task, m⟩ = o) :
    Ends depth task m o := by
  refine ⟨ho, enough + 1, fun steps hle => ?_⟩
  obtain ⟨steps, rfl⟩ := Nat.exists_eq_add_of_le' (Nat.le_of_add_left_le hle)
  exact h steps (Nat.le_of_succ_le_succ hle)

variable {e : Expr} {block ss : List Stmt} {v : Value}

theorem ifThen (he : e.eval m.env = .ok v) (hv : v.truthy = true)
    (h : Ends depth (.block block) m o) : Ends depth (.stmt (.ifThen e block)) m o := by
  obtain ⟨ho, enough, h⟩ := h
  refine of_succ ho enough fun steps hle => ?_
  simpa only [Moment.outcome, execute, he, hv, if_true] using h steps hle

theorem whileDo (h : Ends depth (.loop e block) m o) :
    Ends depth (.stmt (.whileDo e block)) m o := by
  obtain ⟨ho, enough, h⟩ := h
  exact of_succ ho enough h

theorem call {name : String} {arguments : List Expr} {scope : Scope} {body : List Stmt}
    (hc : enterCall m.env name arguments = .ok (scope, body))
    (h : Ends depth (.block body) (m.pushScope scope) o) :
    Ends depth (.stmt (.call name arguments)) m o.popScope := by
  obtain ⟨ho, enough, h⟩ := h
  rw [← Outcome.halt?_popScope] at ho
  refine of_succ ho enough fun steps hle => ?_
  simp only [Moment.outcome, execute, hc]
  exact congrArg Outcome.popScope (h steps hle)

theorem turn {why : Halt} (he : e.eval m.env = .ok v) (hv : v.truthy = true)
    (h : Ends depth (.block block) m (.halted why m₁)) :
    Ends depth (.loop e block) m (.halted why m₁) := by
  obtain ⟨ho, enough, h⟩ := h
  refine of_succ ho enough fun steps hle => ?_
  have hb := h steps hle
  simp only [Moment.outcome] at hb
  simp only [Moment.outcome, executeLoop, he, hv, hb, if_true]

theorem again (he : e.eval m.env = .ok v) (hv : v.truthy = true)
    (h : Ends depth (.block block) m (.done m₁)) (hrest : Ends depth (.loop e block) m₁ o) :
    Ends depth (.loop e block) m o := by
  obtain ⟨-, enough, h⟩ := h
  obtain ⟨ho, enough', hrest⟩ := hrest
  refine of_succ ho (max enough enough') fun steps hle => ?_
  have hb := h steps (Nat.max_le.mp hle).1
  have hr := hrest steps (Nat.max_le.mp hle).2
  simp only [Moment.outcome] at hb hr
  simp only [Moment.outcome, executeLoop, he, hv, hb, hr, if_true]

theorem enter (h : Ends depth (.all ss) m o) : Ends (depth + 1) (.block ss) m o := by
  obtain ⟨ho, enough, h⟩ := h
  exact of_succ ho enough h

theorem first {s : Stmt} {why : Halt} (h : Ends depth (.stmt s) m (.halted why m₁)) :
    Ends depth (.all (s :: ss)) m (.halted (why.inStatement s) m₁) := by
  obtain ⟨ho, enough, h⟩ := h
  refine of_succ ?_ enough fun steps hle => ?_
  · intro hwhy
    exact ho (congrArg some ((Halt.inStatement_eq_iff rfl).mp (Option.some.inj hwhy)))
  · have hs := h steps hle
    simp only [Moment.outcome] at hs
    simp only [Moment.outcome, executeAll, hs]

theorem next {s : Stmt} (h : Ends depth (.stmt s) m (.done m₁))
    (hrest : Ends depth (.all ss) m₁ o) : Ends depth (.all (s :: ss)) m o := by
  obtain ⟨-, enough, h⟩ := h
  obtain ⟨ho, enough', hrest⟩ := hrest
  refine of_succ ho (max enough enough') fun steps hle => ?_
  have hs := h steps (Nat.max_le.mp hle).1
  have hr := hrest steps (Nat.max_le.mp hle).2
  simp only [Moment.outcome] at hs hr
  simp only [Moment.outcome, executeAll, hs, hr]

end Ends

/-! ## Runs -/

namespace Interpreter

/-- An interpreter behind a run that has come out so, and what has ended the run early. -/
def ofOutcome : Outcome → Interpreter × Option Halt
  | .done m => (⟨m.log (.finished m.primitives.size), .haltedSuccess, none⟩, none)
  | .halted why m => (⟨m.log (.halted why.message), .haltedError, some why⟩, some why)

/-- A run ends so with as many steps as it needs, or with more. -/
def Finishes (env : Environment) (depth : Nat) (script : Script) (i : Interpreter)
    (stop : Option Halt) : Prop :=
  stop ≠ some .outOfSteps ∧
    ∃ enough, ∀ steps, enough ≤ steps → (on env).run ⟨depth, steps⟩ script = (i, stop)

variable {env : Environment} {script : Script}

theorem run_eq_ofOutcome (limits : Limits) :
    (on env).run limits script = ofOutcome (Moment.ofRun limits env script).outcome := by
  simp only [run, on, Moment.ofRun, Moment.outcome, Machine.execute]
  split <;> rename_i ho <;> rw [ho] <;> rfl

theorem ofOutcome_snd (o : Outcome) : (ofOutcome o).2 = o.halt? := by
  cases o <;> rfl

theorem ends_of_run {limits : Limits} {i : Interpreter} {stop : Option Halt}
    (h : (on env).run limits script = (i, stop)) (hstop : stop ≠ some .outOfSteps) :
    ∃ o, Ends limits.depth (.block script) (started (.on env)) o ∧ ofOutcome o = (i, stop) := by
  rw [run_eq_ofOutcome] at h
  have hhalt : (ofOutcome (Moment.ofRun limits env script).outcome).2 = stop :=
    congrArg Prod.snd h
  rw [ofOutcome_snd] at hhalt
  exact ⟨_, .of_outcome rfl (hhalt ▸ hstop), h⟩

theorem finishes_iff {depth : Nat} {i : Interpreter} {stop : Option Halt} :
    Finishes env depth script i stop ↔
      ∃ o, Ends depth (.block script) (started (.on env)) o ∧ ofOutcome o = (i, stop) := by
  constructor
  · rintro ⟨hstop, enough, hrun⟩
    exact ends_of_run (hrun enough (Nat.le_refl _)) hstop
  · rintro ⟨o, ⟨ho, enough, he⟩, hi⟩
    rw [← ofOutcome_snd, hi] at ho
    refine ⟨ho, enough, fun steps hle => ?_⟩
    rw [run_eq_ofOutcome, ← hi]
    exact congrArg ofOutcome (he steps hle)

/-- A run that has had steps enough has finished. -/
theorem finishes_of_run {limits : Limits} {i : Interpreter} {stop : Option Halt}
    (h : (on env).run limits script = (i, stop)) (hstop : stop ≠ some .outOfSteps) :
    Finishes env limits.depth script i stop :=
  finishes_iff.mpr (ends_of_run h hstop)

/-- A run finishes in one way only. -/
theorem Finishes.unique {depth : Nat} {i i' : Interpreter} {stop stop' : Option Halt}
    (h : Finishes env depth script i stop) (h' : Finishes env depth script i' stop') :
    (i, stop) = (i', stop') := by
  obtain ⟨o, ho, hi⟩ := finishes_iff.mp h
  obtain ⟨o', ho', hi'⟩ := finishes_iff.mp h'
  rw [← hi, ← hi', ho.unique ho']

end Interpreter

end TurtleGraphics
