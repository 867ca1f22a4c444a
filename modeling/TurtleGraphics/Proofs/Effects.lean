import TurtleGraphics.Execution

/-!
# TurtleGraphics.Proofs.Effects

What one step of an execution can change.

* `Verb.Steers`   : what a command does to the turtle, and the primitive that tells of it.
* `perform_cases` : a command steers the turtle or sets a variable, and never both.
* `enterCall_cases` : what a call finds and what it runs.
* `Fault.OfExpr`, `Fault.OfCommand` : the faults that expressions and commands can raise.
* `Verb.FailsWith` : every way in which a command can fail, faults or not.
* `perform_eq_noDirection_iff` : when a walk fails over its direction.

Everything about runs is proved from these, and no proof about runs opens `perform` again.
-/

namespace TurtleGraphics

/-- The commands that make the turtle walk. -/
def Verb.walks : Verb → Bool
  | .forward => true
  | .back => true
  | .left => true
  | .right => true
  | _ => false

/-! ## Variables -/

namespace Environment

@[simp] theorem turtle_assign (env : Environment) (name : Option String) (v : Value) :
    (env.assign name v).turtle = env.turtle := by
  unfold assign
  split
  · split <;> rfl
  · rfl

@[simp] theorem procedures_assign (env : Environment) (name : Option String) (v : Value) :
    (env.assign name v).procedures = env.procedures := by
  unfold assign
  split
  · split <;> rfl
  · rfl

theorem addTo?_eq_some {env env₁ : Environment} {name : Option String} {amount sum : Float}
    (h : env.addTo? name amount = some (env₁, sum)) :
    ∃ v, env₁ = env.assign name v := by
  unfold addTo? at h
  split at h
  · cases h
  · cases h
    exact ⟨_, rfl⟩

end Environment

/-! ## Commands -/

/-- What a command does to the turtle, and the primitive that it gives out. -/
inductive Verb.Steers : Verb → Turtle → Turtle → Option Primitive → Prop where
  | walk {v : Verb} {t t' : Turtle} {distance offset : Float} : v.walks = true →
      t.move distance offset = some t' →
      Steers v t t' (some (if t.penDown then .lineTo t'.x t'.y else .moveTo t'.x t'.y))
  | head {v : Verb} {t : Turtle} {heading : Float} : v.walks = false →
      Steers v t { t with heading := heading } none
  | place {v : Verb} {t : Turtle} {x y : Float} : v.walks = false →
      Steers v t { t with x := x, y := y } (some (.moveTo x y))
  | pen {v : Verb} {t : Turtle} {down : Bool} : v.walks = false →
      Steers v t { t with penDown := down } (some (.penState down))
  | color {v : Verb} {t : Turtle} {n : Int} : v.walks = false →
      0 ≤ n → n < Int.ofNat paletteSize →
      Steers v t { t with color := n } (some (.setColor n))

theorem colorIndex_bounds {v : Value} {n : Int} (h : colorIndex v = .ok n) :
    0 ≤ n ∧ n < Int.ofNat paletteSize := by
  unfold colorIndex at h
  split at h
  · cases h
  · split at h
    · cases h
    · split at h
      · rename_i hn
        cases h
        exact hn
      · cases h

section

variable {env env' : Environment} {operands : List Expr} {drawn : Option Primitive}

theorem walkOperand_steers {v : Verb} (hv : v.walks = true) {sign offset : Float}
    (h : walkOperand env operands sign offset = .ok (env', drawn)) :
    ∃ t, env' = { env with turtle := t } ∧ v.Steers env.turtle t drawn := by
  unfold walkOperand at h
  split at h
  · cases h
  · unfold walk at h
    split at h
    · cases h
    · rename_i t ht
      cases h
      exact ⟨t, rfl, .walk hv ht⟩

theorem steer_steers {v : Verb} (hv : v.walks = false) {change : Turtle → Float → Turtle}
    (h : steer env operands change = .ok (env', drawn))
    (hchange : ∀ t d, ∃ heading, change t d = { t with heading := heading }) :
    ∃ t, env' = { env with turtle := t } ∧ v.Steers env.turtle t drawn := by
  unfold steer at h
  split at h
  · cases h
  · rename_i d _
    cases h
    obtain ⟨heading, hh⟩ := hchange env.turtle d
    refine ⟨_, rfl, ?_⟩
    rw [hh]
    exact .head hv

theorem place_steers {v : Verb} (hv : v.walks = false) {change : Turtle → Float → Turtle}
    (h : place env operands change = .ok (env', drawn))
    (hchange : ∀ t d, ∃ x y, change t d = { t with x := x, y := y }) :
    ∃ t, env' = { env with turtle := t } ∧ v.Steers env.turtle t drawn := by
  unfold place at h
  split at h
  · cases h
  · rename_i d _
    cases h
    obtain ⟨x, y, hxy⟩ := hchange env.turtle d
    refine ⟨_, rfl, ?_⟩
    rw [hxy]
    exact .place hv

theorem setColor_steers {v : Verb} (hv : v.walks = false)
    (h : setColor env operands = .ok (env', drawn)) :
    ∃ t, env' = { env with turtle := t } ∧ v.Steers env.turtle t drawn := by
  unfold setColor at h
  split at h
  · cases h
  · split at h
    · cases h
    · rename_i n hn
      cases h
      obtain ⟨hlow, hhigh⟩ := colorIndex_bounds hn
      exact ⟨_, rfl, .color hv hlow hhigh⟩

theorem makeVariable_assigns {target : Option String}
    (h : makeVariable env operands target = .ok (env', drawn)) :
    drawn = none ∧ ∃ value, env' = env.assign target value := by
  unfold makeVariable at h
  split at h
  · cases h
  · cases h
    exact ⟨rfl, _, rfl⟩

theorem addToVariable_assigns {target : Option String}
    (h : addToVariable env operands target = .ok (env', drawn)) :
    drawn = none ∧ ∃ value, env' = env.assign target value := by
  unfold addToVariable at h
  split at h
  · cases h
  · split at h
    · rename_i hadd
      cases h
      exact ⟨rfl, Environment.addTo?_eq_some hadd⟩
    · cases h

/-- A command that succeeds steers the turtle or sets its variable, and leaves all else alone. -/
theorem perform_cases {v : Verb} {target : Option String}
    (h : perform env v operands target = .ok (env', drawn)) :
    (∃ t, env' = { env with turtle := t } ∧ v.Steers env.turtle t drawn) ∨
      v.takesName = true ∧ drawn = none ∧ ∃ value, env' = env.assign target value := by
  cases v with
  | penUp => cases h; exact .inl ⟨_, rfl, .pen rfl⟩
  | penDown => cases h; exact .inl ⟨_, rfl, .pen rfl⟩
  | forward => exact .inl (walkOperand_steers rfl h)
  | back => exact .inl (walkOperand_steers rfl h)
  | left => exact .inl (walkOperand_steers rfl h)
  | right => exact .inl (walkOperand_steers rfl h)
  | turn =>
    simp only [perform] at h
    exact .inl (steer_steers rfl h (fun _ _ => ⟨_, rfl⟩))
  | setHeading =>
    simp only [perform] at h
    exact .inl (steer_steers rfl h (fun _ _ => ⟨_, rfl⟩))
  | setX =>
    simp only [perform] at h
    exact .inl (place_steers rfl h (fun t d => ⟨d, t.y, rfl⟩))
  | setY =>
    simp only [perform] at h
    exact .inl (place_steers rfl h (fun t d => ⟨t.x, d, rfl⟩))
  | setPenColor => exact .inl (setColor_steers rfl h)
  | make => exact .inr ⟨rfl, makeVariable_assigns h⟩
  | addAssign => exact .inr ⟨rfl, addToVariable_assigns h⟩
  | unknown w => cases h

/-- No command touches the procedures. -/
theorem perform_procedures {v : Verb} {target : Option String}
    (h : perform env v operands target = .ok (env', drawn)) :
    env'.procedures = env.procedures := by
  obtain ⟨t, rfl, -⟩ | ⟨-, -, value, rfl⟩ := perform_cases h
  · rfl
  · exact env.procedures_assign target value

end

/-! ## Calls -/

/-- A call that is entered has found a procedure with as many parameters as it has arguments. -/
theorem enterCall_cases {env : Environment} {name : String} {arguments : List Expr}
    {scope : Scope} {body : List Stmt} (h : enterCall env name arguments = .ok (scope, body)) :
    ∃ p vs, env.procedures.lookup? name = some p ∧
      arguments.length = p.parameters.length ∧ Expr.evalAll env arguments = .ok vs ∧
      scope = .ofList (p.parameters.zip vs) ∧ body = p.body := by
  unfold enterCall at h
  split at h
  · cases h
  · rename_i p hp
    split at h
    · rename_i hlength
      split at h
      · cases h
      · rename_i vs hvs
        cases h
        exact ⟨p, vs, hp, hlength, hvs, rfl, rfl⟩
    · cases h

/-! ## Faults -/

/-- The faults that the evaluation of an expression can raise. -/
inductive Fault.OfExpr : Fault → Prop where
  | undefinedVariable {name : String} : Fault.OfExpr (.undefinedVariable (some name))
  | divisionByZero : Fault.OfExpr .divisionByZero
  | unknownOperator {w : String} : Fault.OfExpr (.unknownOperator w)
  | unknownQuery {w : String} : Fault.OfExpr (.unknownQuery w)
  | notExpression {shape : Shape} : Fault.OfExpr (.misfit (.notExpression shape))

/-- The faults that a command can raise. -/
inductive Fault.OfCommand : Fault → Prop where
  | ofExpr {f : Fault} : f.OfExpr → Fault.OfCommand f
  | undefinedTarget {target : Option String} : Fault.OfCommand (.undefinedVariable target)
  | unknownCommand {w : String} : Fault.OfCommand (.unknownCommand w)
  | colorNotWhole {v : Value} : Fault.OfCommand (.colorNotWhole v)
  | colorOutOfRange {v : Value} : Fault.OfCommand (.colorOutOfRange v)

theorem Turtle.ofExpr_of_query {t : Turtle} {q : Query} {f : Fault}
    (h : t.query q = .error f) : f.OfExpr := by
  cases q <;> cases h
  exact .unknownQuery

theorem NumericOp.ofExpr_of_apply {op : NumericOp} {l r : Float} {f : Fault}
    (h : op.apply l r = .error f) : f.OfExpr := by
  cases op with
  | div =>
    simp only [NumericOp.apply] at h
    split at h
    · cases h
      exact .divisionByZero
    · cases h
  | unknown w =>
    cases h
    exact .unknownOperator
  | _ => cases h

theorem LogicOp.ofExpr_of_apply {op : LogicOp} {l r : Bool} {f : Fault}
    (h : op.apply l r = .error f) : f.OfExpr := by
  cases op <;> cases h
  exact .unknownOperator

namespace Expr

variable {env : Environment} {f : Fault}

theorem ofExpr_of_eval {e : Expr} (h : e.eval env = .error f) : f.OfExpr := by
  induction e generalizing f with
  | number x => cases h
  | boolean b => cases h
  | «variable» name =>
    simp only [eval] at h
    split at h
    · cases h
    · cases h
      exact .undefinedVariable
  | query q =>
    simp only [eval] at h
    split at h
    · rename_i hq
      cases h
      exact Turtle.ofExpr_of_query hq
    · cases h
  | numeric op l r ihl ihr =>
    simp only [eval] at h
    split at h
    · rename_i hl
      cases h
      exact ihl hl
    · split at h
      · rename_i hr
        cases h
        exact ihr hr
      · exact NumericOp.ofExpr_of_apply h
  | logic op l r ihl ihr =>
    simp only [eval] at h
    split at h
    · rename_i hl
      cases h
      exact ihl hl
    · split at h
      · rename_i hr
        cases h
        exact ihr hr
      · exact LogicOp.ofExpr_of_apply h
  | negation e ih =>
    simp only [eval] at h
    split at h
    · rename_i he
      cases h
      exact ih he
    · cases h
  | foreign s =>
    cases h
    exact .notExpression

theorem ofExpr_of_evalAll {es : List Expr} (h : evalAll env es = .error f) : f.OfExpr := by
  induction es with
  | nil => cases h
  | cons e es ih =>
    simp only [evalAll] at h
    split at h
    · rename_i he
      cases h
      exact ofExpr_of_eval he
    · split at h
      · rename_i hes
        cases h
        exact ih hes
      · cases h

end Expr

/-- The angle between the heading and the direction in which a command makes the turtle walk. -/
def Verb.offset : Verb → Float
  | .left => -90.0
  | .right => 90.0
  | _ => 0.0

/-- The command is to make the turtle walk, but the angle of the walk is infinite. -/
structure Verb.LosesDirection (v : Verb) (operands : List Expr) (env : Environment) : Prop where
  walks : v.walks = true
  operand : ∃ d, operandNumber env operands = .ok d
  infinite : (Turtle.radians (env.turtle.heading + v.offset)).isInf = true

/-- How a command with these operands can fail in an environment. -/
inductive Verb.FailsWith (v : Verb) (operands : List Expr) (env : Environment) : Halt → Prop where
  | fault {f : Fault} : f.OfCommand → FailsWith v operands env (.error ⟨f, none⟩)
  | noOperand : v.arity = 1 → operands = [] → FailsWith v operands env .noOperand
  | noDirection : v.LosesDirection operands env → FailsWith v operands env .noDirection

section

variable {env : Environment} {v : Verb} {operands : List Expr} {why : Halt}

theorem failsWith_of_operandValue (hv : v.arity = 1)
    (h : operandValue env operands = .error why) : v.FailsWith operands env why := by
  unfold operandValue at h
  split at h
  · cases h
    exact .noOperand hv rfl
  · split at h
    · rename_i he
      cases h
      exact .fault (.ofExpr (Expr.ofExpr_of_eval he))
    · cases h

theorem failsWith_of_operandNumber (hv : v.arity = 1)
    (h : operandNumber env operands = .error why) : v.FailsWith operands env why := by
  unfold operandNumber at h
  split at h
  · rename_i hvalue
    cases h
    exact failsWith_of_operandValue hv hvalue
  · cases h

/-- A command with a number as its operand fails over the operand or with the number. -/
theorem failsWith_or_of_number (hv : v.arity = 1) {next : Float → Except Halt Effect}
    (h : (match operandNumber env operands with
      | .error why => .error why
      | .ok d => next d) = Except.error why) :
    v.FailsWith operands env why ∨
      ∃ d, operandNumber env operands = .ok d ∧ next d = .error why := by
  split at h
  · rename_i hnumber
    cases h
    exact .inl (failsWith_of_operandNumber hv hnumber)
  · rename_i d hnumber
    exact .inr ⟨d, hnumber, h⟩

theorem failsWith_of_walkOperand (hv : v.arity = 1) (hwalks : v.walks = true) {sign : Float}
    (h : walkOperand env operands sign v.offset = .error why) :
    v.FailsWith operands env why := by
  unfold walkOperand at h
  obtain hf | ⟨d, hnumber, hd⟩ := failsWith_or_of_number hv h
  · exact hf
  · unfold walk at hd
    split at hd
    · rename_i hmove
      cases hd
      simp only [Turtle.move] at hmove
      split at hmove
      · rename_i hinf
        exact .noDirection ⟨hwalks, ⟨d, hnumber⟩, hinf⟩
      · cases hmove
    · cases hd

theorem failsWith_of_steer (hv : v.arity = 1) {change : Turtle → Float → Turtle}
    (h : steer env operands change = .error why) : v.FailsWith operands env why := by
  unfold steer at h
  obtain hf | ⟨_, -, hd⟩ := failsWith_or_of_number hv h
  · exact hf
  · cases hd

theorem failsWith_of_place (hv : v.arity = 1) {change : Turtle → Float → Turtle}
    (h : place env operands change = .error why) : v.FailsWith operands env why := by
  unfold place at h
  obtain hf | ⟨_, -, hd⟩ := failsWith_or_of_number hv h
  · exact hf
  · cases hd

theorem failsWith_of_makeVariable (hv : v.arity = 1) {target : Option String}
    (h : makeVariable env operands target = .error why) : v.FailsWith operands env why := by
  unfold makeVariable at h
  split at h
  · rename_i hvalue
    cases h
    exact failsWith_of_operandValue hv hvalue
  · cases h

theorem ofCommand_of_colorIndex {value : Value} {f : Fault}
    (h : colorIndex value = .error f) : f.OfCommand := by
  unfold colorIndex at h
  split at h
  · cases h
    exact .colorNotWhole
  · split at h
    · cases h
      exact .colorNotWhole
    · split at h
      · cases h
      · cases h
        exact .colorOutOfRange

theorem failsWith_of_setColor (hv : v.arity = 1)
    (h : setColor env operands = .error why) : v.FailsWith operands env why := by
  unfold setColor at h
  obtain hf | ⟨_, -, hd⟩ := failsWith_or_of_number hv h
  · exact hf
  · split at hd
    · rename_i hn
      cases hd
      exact .fault (ofCommand_of_colorIndex hn)
    · cases hd

theorem failsWith_of_addToVariable (hv : v.arity = 1) {target : Option String}
    (h : addToVariable env operands target = .error why) : v.FailsWith operands env why := by
  unfold addToVariable at h
  obtain hf | ⟨_, -, hd⟩ := failsWith_or_of_number hv h
  · exact hf
  · split at hd
    · cases hd
    · cases hd
      exact .fault .undefinedTarget

/-- A command fails by a fault of the script, for want of an operand, or because the turtle has no
direction to walk in. -/
theorem failsWith_of_perform {target : Option String}
    (h : perform env v operands target = .error why) : v.FailsWith operands env why := by
  cases v with
  | penUp => cases h
  | penDown => cases h
  | forward => exact failsWith_of_walkOperand rfl rfl h
  | back => exact failsWith_of_walkOperand rfl rfl h
  | left => exact failsWith_of_walkOperand rfl rfl h
  | right => exact failsWith_of_walkOperand rfl rfl h
  | turn => exact failsWith_of_steer rfl h
  | setHeading =>
    simp only [perform] at h
    exact failsWith_of_steer rfl h
  | setX =>
    simp only [perform] at h
    exact failsWith_of_place rfl h
  | setY =>
    simp only [perform] at h
    exact failsWith_of_place rfl h
  | setPenColor => exact failsWith_of_setColor rfl h
  | make => exact failsWith_of_makeVariable rfl h
  | addAssign => exact failsWith_of_addToVariable rfl h
  | unknown w =>
    cases h
    exact .fault .unknownCommand

theorem walkOperand_of_infinite {d sign offset : Float} (hd : operandNumber env operands = .ok d)
    (hinf : (Turtle.radians (env.turtle.heading + offset)).isInf = true) :
    walkOperand env operands sign offset = .error .noDirection := by
  simp only [walkOperand, hd, walk, Turtle.move]
  rw [if_pos hinf]

theorem perform_eq_noDirection_iff {target : Option String} :
    perform env v operands target = .error .noDirection ↔ v.LosesDirection operands env := by
  constructor
  · intro h
    cases failsWith_of_perform h with
    | noDirection hlost => exact hlost
  · rintro ⟨hwalks, ⟨d, hd⟩, hinf⟩
    cases v with
    | forward => exact walkOperand_of_infinite hd hinf
    | back => exact walkOperand_of_infinite hd hinf
    | left => exact walkOperand_of_infinite hd hinf
    | right => exact walkOperand_of_infinite hd hinf
    | _ => cases hwalks

theorem ofCommand_of_perform {target context : Option String} {f : Fault}
    (h : perform env v operands target = .error (.error ⟨f, context⟩)) : f.OfCommand := by
  cases failsWith_of_perform h with
  | fault hf => exact hf

end

end TurtleGraphics
