import TurtleGraphics.Proofs.Scopes

/-!
# TurtleGraphics.Proofs.Failures

What a failure leaves behind.

A command changes several parts of a machine, one after the other: the turtle is moved along one
axis and then along the other, and only then is the line given out. `perform` settles all of it
before anything is changed. Here the same command is also carried out in place, each change made as
soon as its value is known and none taken back; whatever can fail turns out to come before the first
change.

* `InPlace`            : changes to a machine that stay made when a later one fails.
* `Verb.inPlace`       : a command as such changes, in their order.
* `inPlace_apply`      : it comes to the same as `perform`, also when it fails.
* `CallRefused`        : a call fails before the body of the procedure is entered.
* `failed_of_executeAll` : statements that fail have completed those before the one that fails.
* `Machine.leaveCalls` : a machine with some of the calls under way left.
* `halted_of_reaches_fails` : a failure inside an execution ends it with the machine as it was then.
* `failures_keep_machine` : all of it, for single statements and for runs.
-/

namespace TurtleGraphics

/-! ## Commands carried out in place -/

/-- Changes to a machine, made one after the other. A failure leaves the machine as it is by then,
so it does not undo what was done before. -/
def InPlace (α : Type) := Machine → Except Halt α × Machine

namespace InPlace

variable {α β : Type}

instance : Monad InPlace where
  pure a := fun m => (.ok a, m)
  bind x f := fun m =>
    match x m with
    | (.ok a, m') => f a m'
    | (.error why, m') => (.error why, m')

/-- How the changes end if they are all that is executed. -/
def outcome (x : InPlace Unit) (m : Machine) : Outcome :=
  match x m with
  | (.ok (), m') => .done m'
  | (.error why, m') => .halted why m'

/-- Something that is looked up or computed in the environment of the moment, or fails. -/
def ask (f : Environment → Except Halt α) : InPlace α := fun m => (f m.env, m)

/-- The turtle of the moment. -/
def turtle : InPlace Turtle := fun m => (.ok m.env.turtle, m)

/-- A change of the turtle. -/
def setTurtle (change : Turtle → Turtle) : InPlace Unit :=
  fun m => (.ok (), { m with env := { m.env with turtle := change m.env.turtle } })

/-- A variable set. -/
def assign (name : Option String) (v : Value) : InPlace Unit :=
  fun m => (.ok (), { m with env := m.env.assign name v })

/-- A primitive given out. -/
def draw (p : Primitive) : InPlace Unit := fun m => (.ok (), m.emit p)

/-- The sine of an angle, if the angle is finite or no number. -/
def sine (angle : Float) : InPlace Float :=
  ask fun _ => if angle.isInf then .error .noDirection else .ok (Float.sin angle)

/-- The cosine of an angle, likewise. -/
def cosine (angle : Float) : InPlace Float :=
  ask fun _ => if angle.isInf then .error .noDirection else .ok (Float.cos angle)

theorem bind_apply (x : InPlace α) (f : α → InPlace β) (m : Machine) :
    (x >>= f) m =
      match x m with
      | (.ok a, m') => f a m'
      | (.error why, m') => (.error why, m') := rfl

end InPlace

open InPlace in
/-- A walk: first along the one axis, then along the other, and last the primitive. -/
def walkInPlace (operands : List Expr) (sign offset : Float) : InPlace Unit := do
  let d ← ask (operandNumber · operands)
  let angle := Turtle.radians ((← turtle).heading + offset)
  let s ← sine angle
  setTurtle fun t => { t with x := t.x + sign * d * s }
  let c ← cosine angle
  setTurtle fun t => { t with y := t.y - sign * d * c }
  let t ← turtle
  draw (if t.penDown then .lineTo t.x t.y else .moveTo t.x t.y)

open InPlace in
/-- A command, its changes in the order in which they are made. -/
def Verb.inPlace (v : Verb) (operands : List Expr) (target : Option String) : InPlace Unit :=
  match v with
  | .penUp => do
    setTurtle fun t => { t with penDown := false }
    draw (.penState (← turtle).penDown)
  | .penDown => do
    setTurtle fun t => { t with penDown := true }
    draw (.penState (← turtle).penDown)
  | .forward => walkInPlace operands 1.0 0.0
  | .back => walkInPlace operands (-1.0) 0.0
  | .left => walkInPlace operands 1.0 (-90.0)
  | .right => walkInPlace operands 1.0 90.0
  | .turn => do
    let d ← ask (operandNumber · operands)
    setTurtle fun t => t.turn d
  | .setHeading => do
    let d ← ask (operandNumber · operands)
    setTurtle fun t => { t with heading := d }
  | .setX => do
    let d ← ask (operandNumber · operands)
    setTurtle fun t => { t with x := d }
    let t ← turtle
    draw (.moveTo t.x t.y)
  | .setY => do
    let d ← ask (operandNumber · operands)
    setTurtle fun t => { t with y := d }
    let t ← turtle
    draw (.moveTo t.x t.y)
  | .setPenColor => do
    let d ← ask (operandNumber · operands)
    let n ← ask fun _ =>
      match colorIndex (.number d) with
      | .error f => .error (.ofFault f)
      | .ok n => .ok n
    setTurtle fun t => { t with color := n }
    draw (.setColor (← turtle).color)
  | .make => do
    let value ← ask (operandValue · operands)
    assign target value
  | .addAssign => do
    let amount ← ask (operandNumber · operands)
    let value ← ask fun env =>
      match env.lookup? target with
      | none => .error (.ofFault (.undefinedVariable target))
      | some value => .ok value
    assign target (.number (value.toNumber + amount))
  | .unknown w => ask fun _ => .error (.ofFault (.unknownCommand w))

theorem walkInPlace_apply (m : Machine) (operands : List Expr) (sign offset : Float) :
    walkInPlace operands sign offset m =
      match walkOperand m.env operands sign offset with
      | .error why => (.error why, m)
      | .ok (env, drawn) => (.ok (), m.after env drawn) := by
  simp only [walkInPlace, InPlace.bind_apply, InPlace.ask, walkOperand]
  cases operandNumber m.env operands with
  | error why => rfl
  | ok d =>
    simp only [InPlace.turtle, InPlace.sine, InPlace.cosine, InPlace.ask, walk, Turtle.move]
    -- Both axes ask for the same angle, so the second one cannot fail behind the first.
    by_cases hinf : (Turtle.radians (m.env.turtle.heading + offset)).isInf = true
    · simp only [hinf, if_true]
    · simp only [hinf]
      rfl

/-- A command carried out in place comes to what it comes to when everything is settled first: the
same changes, or the same failure and none. -/
theorem inPlace_apply (m : Machine) (v : Verb) (operands : List Expr) (target : Option String) :
    v.inPlace operands target m =
      match perform m.env v operands target with
      | .error why => (.error why, m)
      | .ok (env, drawn) => (.ok (), m.after env drawn) := by
  cases v with
  | penUp => rfl
  | penDown => rfl
  | forward => exact walkInPlace_apply m operands _ _
  | back => exact walkInPlace_apply m operands _ _
  | left => exact walkInPlace_apply m operands _ _
  | right => exact walkInPlace_apply m operands _ _
  | turn =>
    simp only [Verb.inPlace, InPlace.bind_apply, InPlace.ask, perform, steer]
    cases operandNumber m.env operands <;> rfl
  | setHeading =>
    simp only [Verb.inPlace, InPlace.bind_apply, InPlace.ask, perform, steer]
    cases operandNumber m.env operands <;> rfl
  | setX =>
    simp only [Verb.inPlace, InPlace.bind_apply, InPlace.ask, perform, place]
    cases operandNumber m.env operands <;> rfl
  | setY =>
    simp only [Verb.inPlace, InPlace.bind_apply, InPlace.ask, perform, place]
    cases operandNumber m.env operands <;> rfl
  | setPenColor =>
    simp only [Verb.inPlace, InPlace.bind_apply, InPlace.ask, perform, setColor]
    cases operandNumber m.env operands with
    | error why => rfl
    | ok d =>
      simp only
      cases colorIndex (.number d) <;> rfl
  | make =>
    simp only [Verb.inPlace, InPlace.bind_apply, InPlace.ask, perform, makeVariable]
    cases operandValue m.env operands <;> rfl
  | addAssign =>
    simp only [Verb.inPlace, InPlace.bind_apply, InPlace.ask, perform, addToVariable,
      Environment.addTo?]
    cases operandNumber m.env operands with
    | error why => rfl
    | ok amount =>
      simp only
      cases m.env.lookup? target <;> rfl
  | unknown w => rfl

/-- So it is also what an execution of the command does. -/
theorem execute_command (steps depth : Nat) (m : Machine) (v : Verb) (operands : List Expr)
    (target : Option String) :
    execute (steps + 1) depth (.command v operands target) m =
      (v.inPlace operands target).outcome m := by
  simp only [execute, InPlace.outcome, inPlace_apply]
  cases perform m.env v operands target <;> rfl

theorem eq_of_inPlace_halted {m m' : Machine} {v : Verb} {operands : List Expr}
    {target : Option String} {why : Halt}
    (h : (v.inPlace operands target).outcome m = .halted why m') : m' = m := by
  simp only [InPlace.outcome, inPlace_apply] at h
  cases hp : perform m.env v operands target with
  | error own =>
    rw [hp] at h
    cases h
    rfl
  | ok effect =>
    rw [hp] at h
    cases h

/-! ## Calls that are not entered -/

/-- A call fails before the body of a procedure is entered: there is no procedure of the name, it
has another number of parameters, or one of the arguments fails. -/
inductive CallRefused (env : Environment) (name : String) (arguments : List Expr) :
    Fault → Prop where
  | undefined : env.procedures.lookup? name = none →
      CallRefused env name arguments (.undefinedProcedure name)
  | count {p : Procedure} : env.procedures.lookup? name = some p →
      arguments.length ≠ p.parameters.length →
      CallRefused env name arguments
        (.argumentCount name p.parameters.length arguments.length)
  | argument {p : Procedure} {f : Fault} : env.procedures.lookup? name = some p →
      arguments.length = p.parameters.length → Expr.evalAll env arguments = .error f →
      CallRefused env name arguments f

theorem enterCall_eq_error_iff {env : Environment} {name : String} {arguments : List Expr}
    {f : Fault} : enterCall env name arguments = .error f ↔ CallRefused env name arguments f := by
  constructor
  · intro h
    unfold enterCall at h
    split at h
    · rename_i hnone
      cases h
      exact .undefined hnone
    · rename_i p hp
      split at h
      · rename_i hlength
        split at h
        · rename_i hf
          cases h
          exact .argument hp hlength hf
        · cases h
      · rename_i hlength
        cases h
        exact .count hp hlength
  · intro h
    cases h with
    | undefined hnone => simp only [enterCall, hnone]
    | count hp hlength => simp only [enterCall, hp, if_neg hlength]
    | argument hp hlength hf => simp only [enterCall, hp, if_pos hlength, hf]

/-! ## Lists of statements -/

/-- Statements executed one after the other fail at the first one that fails. Those before it have
been completed, and the machine is the one that it leaves. -/
theorem failed_of_executeAll {steps depth : Nat} {ss : List Stmt} {m m' : Machine} {why : Halt}
    (hwhy : why ≠ .outOfSteps) (h : executeAll steps depth ss m = .halted why m') :
    ∃ before s rest m₁ left own, ss = before ++ s :: rest ∧
      executeAll steps depth before m = .done m₁ ∧
      execute left depth s m₁ = .halted own m' ∧ why = own.inStatement s := by
  induction ss generalizing steps m with
  | nil =>
    cases steps with
    | zero =>
      cases h
      exact absurd rfl hwhy
    | succ steps => cases h
  | cons s rest ih =>
    cases steps with
    | zero =>
      cases h
      exact absurd rfl hwhy
    | succ steps =>
      simp only [executeAll] at h
      split at h
      · rename_i own m₁ hs
        cases h
        exact ⟨[], s, rest, m, steps, own, rfl, rfl, hs, rfl⟩
      · rename_i m₁ hs
        obtain ⟨before, t, after, m₂, left, own, rfl, hbefore, ht, rfl⟩ := ih h
        exact ⟨s :: before, t, after, m₂, left, own, rfl, by simp only [executeAll, hs, hbefore],
          ht, rfl⟩

/-! ## On the way out -/

/-- The machine with the innermost `n` calls left. -/
def Machine.leaveCalls (m : Machine) (n : Nat) : Machine :=
  { m with env := { m.env with scopes := m.env.scopes.drop n } }

@[simp] theorem Machine.leaveCalls_zero (m : Machine) : m.leaveCalls 0 = m := rfl

theorem Machine.leaveCalls_leaveCalls (m : Machine) (n k : Nat) :
    (m.leaveCalls n).leaveCalls k = m.leaveCalls (n + k) := by
  simp only [Machine.leaveCalls, List.drop_drop]

theorem Machine.popScope_eq_leaveCalls (m : Machine) : m.popScope = m.leaveCalls 1 := by
  simp only [Machine.popScope, Environment.popScope, Machine.leaveCalls, List.drop_one]

/-- An execution keeps the number of calls that are under way. -/
theorem depth_outcome (c : Moment) : c.outcome.machine.env.depth = c.machine.env.depth :=
  ((upholds_scopes c.machine.env.scopes).outcome (c := c) (.refl _)).length_eq

namespace Moment

variable {c c₁ : Moment}

/-- What ends early by itself leaves the machine as it was. -/
theorem Fails.outcome {why : Halt} (h : c.Fails why) : c.outcome = .halted why c.machine := by
  cases h with
  | command hp => simp only [Moment.outcome, execute, hp]
  | ifThen he => simp only [Moment.outcome, execute, he, Halt.ofFault]
  | loop he => simp only [Moment.outcome, executeLoop, he, Halt.ofFault]
  | call hc => simp only [Moment.outcome, execute, hc, Halt.ofFault]
  | foreign => rfl
  | tooDeep => rfl
  | @outOfSteps depth task m => cases task <;> rfl

/-- An execution that fails ends the one that it stands in, which leaves a call if it is one. -/
theorem halted_of_calls_halted (hcall : c.Calls c₁) :
    ∃ n, c₁.machine.env.depth = c.machine.env.depth + n ∧
      ∀ why m, c₁.outcome = .halted why m →
        ∃ why', c.outcome = .halted why' (m.leaveCalls n) := by
  cases hcall with
  | ifThen he hv =>
    refine ⟨0, rfl, fun why m ho => ⟨why, ?_⟩⟩
    simp only [outcome] at ho
    simp only [outcome, execute, he, hv, ho, if_true, Machine.leaveCalls_zero]
  | whileDo => exact ⟨0, rfl, fun why m ho => ⟨why, ho⟩⟩
  | call henter =>
    refine ⟨1, rfl, fun why m ho => ⟨why, ?_⟩⟩
    simp only [outcome] at ho
    simp only [outcome, execute, henter, ho, Outcome.popScope, Machine.popScope_eq_leaveCalls]
  | turn he hv =>
    refine ⟨0, rfl, fun why m ho => ⟨why, ?_⟩⟩
    simp only [outcome] at ho
    simp only [outcome, executeLoop, he, hv, ho, if_true, Machine.leaveCalls_zero]
  | @again steps depth e block m m₁ v he hv hb =>
    have hdepth := depth_outcome ⟨steps, depth, .block block, m⟩
    simp only [outcome, hb, Outcome.machine] at hdepth
    refine ⟨0, hdepth, fun why m ho => ⟨why, ?_⟩⟩
    simp only [outcome] at ho
    simp only [outcome, executeLoop, he, hv, hb, ho, if_true, Machine.leaveCalls_zero]
  | enter => exact ⟨0, rfl, fun why m ho => ⟨why, ho⟩⟩
  | @first steps depth s rest m =>
    refine ⟨0, rfl, fun why m ho => ⟨why.inStatement s, ?_⟩⟩
    simp only [outcome] at ho
    simp only [outcome, executeAll, ho, Machine.leaveCalls_zero]
  | @next steps depth s rest m m₁ hs =>
    have hdepth := depth_outcome ⟨steps, depth, .stmt s, m⟩
    simp only [outcome, hs, Outcome.machine] at hdepth
    refine ⟨0, hdepth, fun why m ho => ⟨why, ?_⟩⟩
    simp only [outcome] at ho
    simp only [outcome, executeAll, hs, ho, Machine.leaveCalls_zero]

/-- A failure inside an execution ends it with the machine of the failure, but for the calls that
were under way there. -/
theorem halted_of_reaches_fails {own : Halt} (hr : c.Reaches c₁) (hfails : c₁.Fails own) :
    ∃ n why, c₁.machine.env.depth = c.machine.env.depth + n ∧
      c.outcome = .halted why (c₁.machine.leaveCalls n) := by
  induction hr using Relation.ReflTransGen.head_induction_on with
  | refl => exact ⟨0, own, rfl, hfails.outcome⟩
  | head hcall _ ih =>
    obtain ⟨n, why, hdepth, ho⟩ := ih
    obtain ⟨k, hk, hhalted⟩ := halted_of_calls_halted hcall
    obtain ⟨why', ho'⟩ := hhalted why _ ho
    rw [Machine.leaveCalls_leaveCalls] at ho'
    exact ⟨n + k, why', by omega, ho'⟩

/-- An execution that ends early was ended by something inside it that failed by itself, and leaves
the machine as that found it, but for the calls that were under way there. -/
theorem failed_of_halted {why : Halt} {m : Machine} (h : c.outcome = .halted why m) :
    ∃ c' own n, c.Reaches c' ∧ c'.Fails own ∧ (why = own ∨ ∃ s, why = own.inStatement s) ∧
      c'.machine.env.depth = c.machine.env.depth + n ∧ m = c'.machine.leaveCalls n := by
  obtain ⟨c', own, hr, hfails, hwhy⟩ := gives_of_halted h
  obtain ⟨n, why', hdepth, ho⟩ := halted_of_reaches_fails hr hfails
  rw [h] at ho
  cases ho
  refine ⟨c', own, n, hr, hfails, ?_, hdepth, rfl⟩
  obtain rfl | ⟨_, s, -, -, rfl⟩ := hwhy
  · exact .inl rfl
  · exact .inr ⟨s, rfl⟩

end Moment

/-! ## Runs -/

/-- What fails changes nothing. A command that fails leaves the machine as it was, and that is also
what becomes of the machine if the changes of the command are made one by one and none is taken
back. So does a statement whose condition fails when it is first looked at, and a call that is not
entered. Statements that are executed one after the other have completed those before the one that
fails. A run that ends early was ended by something inside it that failed by itself; the primitives
and the environment are those that it found, but for the parameters of the calls under way. -/
theorem failures_keep_machine (limits : Limits) (env : Environment) (script : Script) :
    (∀ steps depth m v operands target,
      execute (steps + 1) depth (.command v operands target) m =
        (v.inPlace operands target).outcome m ∧
      ∀ why m', (v.inPlace operands target).outcome m = .halted why m' → m' = m) ∧
    (∀ steps depth m e block f, e.eval m.env = .error f →
      execute (steps + 1) depth (.ifThen e block) m = .halted (.ofFault f) m ∧
      execute (steps + 2) depth (.whileDo e block) m = .halted (.ofFault f) m) ∧
    (∀ steps depth m name arguments f, CallRefused m.env name arguments f →
      execute (steps + 1) depth (.call name arguments) m = .halted (.ofFault f) m) ∧
    (∀ steps depth ss m why m', why ≠ .outOfSteps →
      executeAll steps depth ss m = .halted why m' →
      ∃ before s rest m₁ left own, ss = before ++ s :: rest ∧
        executeAll steps depth before m = .done m₁ ∧
        execute left depth s m₁ = .halted own m' ∧ why = own.inStatement s) ∧
    ∀ why, ((Interpreter.on env).run limits script).2 = some why →
      ∃ c own n, (Moment.ofRun limits env script).Reaches c ∧ c.Fails own ∧
        (why = own ∨ ∃ s, why = own.inStatement s) ∧
        c.machine.env.depth = env.depth + n ∧
        ((Interpreter.on env).run limits script).1.env = (c.machine.leaveCalls n).env ∧
        ((Interpreter.on env).run limits script).1.primitives = c.machine.primitives.toList := by
  refine ⟨?_, ?_, ?_, fun _ _ _ _ _ _ => failed_of_executeAll, ?_⟩
  · intro steps depth m v operands target
    exact ⟨execute_command steps depth m v operands target, fun _ _ => eq_of_inPlace_halted⟩
  · intro steps depth m e block f he
    simp only [execute, executeLoop, he, and_self]
  · intro steps depth m name arguments f hrefused
    simp only [execute, enterCall_eq_error_iff.mpr hrefused]
  · intro why hwhy
    rw [Interpreter.halt_run] at hwhy
    obtain ⟨m, ho⟩ := Outcome.exists_of_halt? hwhy
    obtain ⟨c, own, n, hr, hfails, hnamed, hdepth, rfl⟩ := Moment.failed_of_halted ho
    rw [Interpreter.env_run, Interpreter.primitives_run, ho]
    exact ⟨c, own, n, hr, hfails, hnamed, hdepth, rfl, rfl⟩

end TurtleGraphics
