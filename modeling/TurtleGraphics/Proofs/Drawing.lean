import TurtleGraphics.Proofs.Moments

/-!
# TurtleGraphics.Proofs.Drawing

The primitives of a run tell everything there is to see of the turtle.

* `View`         : the turtle as whoever draws knows it; the heading is not part of it.
* `replay`       : follows primitives from a view on.
* `LinesWithPen` : no line is drawn while the replayed pen is up.
* `Drawn`        : the invariant, that the replay has arrived at the turtle and drew no such line.
* `run_draws`    : it holds throughout a run, however the run ends.
-/

namespace TurtleGraphics

/-- The turtle as it is seen. -/
structure View where
  x : Float
  y : Float
  penDown : Bool
  color : Int

/-- What is seen of a turtle. -/
def Turtle.view (t : Turtle) : View := ⟨t.x, t.y, t.penDown, t.color⟩

/-- What a primitive changes of what is seen. -/
def Primitive.apply (v : View) : Primitive → View
  | .moveTo x y => { v with x := x, y := y }
  | .lineTo x y => { v with x := x, y := y }
  | .setColor n => { v with color := n }
  | .penState down => { v with penDown := down }

/-- What is seen after some primitives. -/
def replay (v : View) (ps : List Primitive) : View :=
  ps.foldl Primitive.apply v

@[simp] theorem replay_nil (v : View) : replay v [] = v := rfl

@[simp] theorem replay_append (v : View) (ps qs : List Primitive) :
    replay v (ps ++ qs) = replay (replay v ps) qs :=
  List.foldl_append

/-- Every line is drawn with the replayed pen down. -/
def LinesWithPen (v : View) (ps : List Primitive) : Prop :=
  ∀ before x y after, ps = before ++ .lineTo x y :: after → (replay v before).penDown = true

theorem LinesWithPen.append {v : View} {ps : List Primitive} (h : LinesWithPen v ps)
    {p : Primitive} (hp : ∀ x y, p = .lineTo x y → (replay v ps).penDown = true) :
    LinesWithPen v (ps ++ [p]) := by
  intro before x y after heq
  obtain rfl | ⟨rest, last, rfl⟩ := List.eq_nil_or_concat after
  · obtain ⟨rfl, hline⟩ := List.append_inj' heq rfl
    exact hp x y (by simpa using hline)
  · rw [List.concat_eq_append, ← List.cons_append, ← List.append_assoc] at heq
    obtain ⟨rfl, -⟩ := List.append_inj' heq rfl
    exact h before x y rest rfl

/-! ## Single commands -/

theorem Turtle.move_eq_some {t t' : Turtle} {distance offset : Float}
    (h : t.move distance offset = some t') : t' = { t with x := t'.x, y := t'.y } := by
  simp only [Turtle.move] at h
  split at h
  · cases h
  · cases h
    rfl

namespace Verb.Steers

variable {v : Verb} {t t' : Turtle} {drawn : Option Primitive}

/-- The primitive of a command tells what the command does. -/
theorem view (h : v.Steers t t' drawn) : t'.view = replay t.view drawn.toList := by
  cases h with
  | walk _ hmove =>
    rw [Turtle.move_eq_some hmove]
    cases hpen : t.penDown <;> simp [Turtle.view, replay, Primitive.apply, hpen]
  | head _ => rfl
  | place _ => rfl
  | pen _ => rfl
  | color _ _ _ => rfl

theorem penDown_of_line (h : v.Steers t t' drawn) {x y : Float}
    (hline : drawn = some (.lineTo x y)) : t.penDown = true := by
  cases h with
  | walk _ _ =>
    split at hline
    · assumption
    · cases hline
  | _ => cases hline

theorem of_walks (h : v.Steers t t' drawn) (hv : v.walks = true) :
    drawn = some (if t.penDown then .lineTo t'.x t'.y else .moveTo t'.x t'.y) := by
  cases h with
  | walk _ _ => rfl
  | head hn => rw [hv] at hn; cases hn
  | place hn => rw [hv] at hn; cases hn
  | pen hn => rw [hv] at hn; cases hn
  | color hn _ _ => rw [hv] at hn; cases hn

end Verb.Steers

theorem Verb.walks_of_takesName {v : Verb} (h : v.takesName = true) : v.walks = false := by
  cases v <;> first | rfl | cases h

/-! ## The invariant -/

/-- The primitives so far lead from a view to the turtle, and every line was drawn with the pen
down. -/
structure Drawn (start : View) (m : Machine) : Prop where
  view : replay start m.primitives.toList = m.env.turtle.view
  lines : LinesWithPen start m.primitives.toList

theorem Machine.primitives_after (m : Machine) (env : Environment) (drawn : Option Primitive) :
    (m.after env drawn).primitives.toList = m.primitives.toList ++ drawn.toList := by
  cases drawn with
  | none => simp [Machine.after]
  | some p => simp [Machine.after]

theorem Drawn.after {start : View} {m : Machine} (h : Drawn start m) {env : Environment}
    {drawn : Option Primitive}
    (hview : env.turtle.view = replay m.env.turtle.view drawn.toList)
    (hline : ∀ x y, drawn = some (.lineTo x y) → m.env.turtle.penDown = true) :
    Drawn start (m.after env drawn) := by
  constructor
  · rw [Machine.primitives_after, replay_append, h.view, Machine.after_env, hview]
  · rw [Machine.primitives_after]
    cases drawn with
    | none => simpa using h.lines
    | some p =>
      refine h.lines.append fun x y hp => ?_
      rw [h.view]
      exact hline x y (by rw [hp])

theorem Drawn.command {start : View} {m : Machine} (h : Drawn start m) {v : Verb}
    {operands : List Expr} {target : Option String} {env : Environment}
    {drawn : Option Primitive} (hp : perform m.env v operands target = .ok (env, drawn)) :
    Drawn start (m.after env drawn) := by
  obtain ⟨t, rfl, hsteers⟩ | ⟨-, rfl, value, rfl⟩ := perform_cases hp
  · exact h.after hsteers.view fun _ _ => hsteers.penDown_of_line
  · exact h.after (by rw [Environment.turtle_assign]; rfl) (fun _ _ hnone => nomatch hnone)

theorem upholds_drawn (start : View) :
    Upholds (fun _ => Drawn start) (fun m m' => Drawn start m → Drawn start m') :=
  .of_invariant (fun h hp => h.command hp) (fun _ _ _ h => ⟨h.view, h.lines⟩)
    (fun _ _ h => ⟨h.view, h.lines⟩) (fun _ h => ⟨h.view, h.lines⟩)

/-- Primitives are given out one after the other, and none is ever taken back. -/
theorem upholds_appends :
    Upholds (fun _ _ => True) (fun m m' => m.primitives.toList <+: m'.primitives.toList) := by
  refine .of_machine (fun _ => List.prefix_rfl) (fun h₁ h₂ => h₁.trans h₂) ?_
    (fun _ _ _ => List.prefix_rfl) (fun h => h)
  intro v operands target m env drawn _
  rw [Machine.primitives_after]
  exact List.prefix_append _ _

theorem drawn_started (env : Environment) :
    Drawn env.turtle.view (Interpreter.started (.on env)) := by
  constructor
  · rfl
  · intro before x y after heq
    cases before with
    | nil => cases heq
    | cons p before =>
      obtain ⟨-, hrest⟩ := List.cons.inj heq
      exact absurd hrest.symm (by simp)

/-! ## Runs -/

theorem walk_primitives {c : Moment} {v : Verb} {operands : List Expr} {target : Option String}
    {m : Machine} (hc : c.task = .stmt (.command v operands target)) (hv : v.walks = true)
    (ho : c.outcome = .done m) :
    m.primitives.toList = c.machine.primitives.toList ++
      [if c.machine.env.turtle.penDown then .lineTo m.env.turtle.x m.env.turtle.y
        else .moveTo m.env.turtle.x m.env.turtle.y] := by
  obtain ⟨steps, depth, task, m₀⟩ := c
  cases hc
  cases steps with
  | zero => cases ho
  | succ steps =>
    simp only [Moment.outcome, execute] at ho
    split at ho
    · cases ho
    · rename_i env drawn hp
      cases ho
      obtain ⟨t, rfl, hsteers⟩ | ⟨htakes, -, -⟩ := perform_cases hp
      · rw [Machine.primitives_after, hsteers.of_walks hv, Machine.after_env]
        rfl
      · rw [Verb.walks_of_takesName htakes] at hv
        cases hv

/-- The primitives of a run determine what is drawn. They start with the place of the turtle, the
replay of them arrives at what is seen of the turtle in the end and at every moment on the way, no
line is drawn while the replayed pen is up, and a walk gives out exactly one primitive, which is a
line if the replayed pen is down. -/
theorem run_draws (limits : Limits) (env : Environment) (script : Script) :
    ((Interpreter.on env).run limits script).1.primitives.head? =
      some (.moveTo env.turtle.x env.turtle.y) ∧
    replay env.turtle.view ((Interpreter.on env).run limits script).1.primitives =
      ((Interpreter.on env).run limits script).1.env.turtle.view ∧
    LinesWithPen env.turtle.view ((Interpreter.on env).run limits script).1.primitives ∧
    ∀ c, (Moment.ofRun limits env script).Reaches c →
      c.machine.primitives.toList <+: c.outcome.machine.primitives.toList ∧
      c.outcome.machine.primitives.toList <+:
        ((Interpreter.on env).run limits script).1.primitives ∧
      replay env.turtle.view c.machine.primitives.toList = c.machine.env.turtle.view ∧
      replay env.turtle.view c.outcome.machine.primitives.toList =
        c.outcome.machine.env.turtle.view ∧
      ∀ v operands target m, c.task = .stmt (.command v operands target) → v.walks = true →
        c.outcome = .done m →
        m.primitives.toList = c.machine.primitives.toList ++
          [if (replay env.turtle.view c.machine.primitives.toList).penDown then
            .lineTo m.env.turtle.x m.env.turtle.y
          else .moveTo m.env.turtle.x m.env.turtle.y] := by
  have hstart := drawn_started env
  have hend : Drawn env.turtle.view (Moment.ofRun limits env script).outcome.machine :=
    (upholds_drawn _).outcome (c := Moment.ofRun limits env script) hstart hstart
  rw [Interpreter.primitives_run, Interpreter.env_run]
  refine ⟨?_, hend.view, hend.lines, ?_⟩
  · obtain ⟨more, hmore⟩ :=
      upholds_appends.outcome (c := Moment.ofRun limits env script) trivial
    rw [← hmore]
    rfl
  · intro c hr
    have hc : Drawn env.turtle.view c.machine := (upholds_drawn _).reaches hstart hr
    have ho : Drawn env.turtle.view c.outcome.machine := (upholds_drawn _).outcome hc hc
    refine ⟨upholds_appends.outcome trivial,
      upholds_appends.outcome_of_reaches (fun _ => List.prefix_rfl) trivial hr, hc.view, ho.view,
      ?_⟩
    intro v operands target m htask hv hdone
    rw [hc.view]
    exact walk_primitives htask hv hdone

end TurtleGraphics
