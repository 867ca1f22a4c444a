import TurtleGraphics.Proofs.Lockstep

/-!
# TurtleGraphics.Proofs.Agreement

One command, or one call, in two environments.

* `Steerable`     : turtles may differ in some way, and every command leaves it at that.
* `AlikeEffect`   : two commands fail alike, or steer such turtles alike, or set a variable to
  values that may differ in some way.
* `perform_alike` : what the environments must have in common for that.
* `enterCall_alike` : the same of calls.

A command sees the turtle, the value of its operand and its variable. It sees values as numbers
only, and passes on the one of its operand as it is when it sets a variable.
-/

namespace TurtleGraphics

theorem optionRel_eq_iff {α : Type} {a a' : Option α} : Option.Rel Eq a a' ↔ a' = a := by
  constructor
  · intro h
    cases h with
    | none => rfl
    | some h => rw [h]
  · rintro rfl
    cases a' with
    | none => exact .none
    | some x => exact .some rfl

/-- Tables that hold related entries by the same names do so when related entries are added. -/
theorem rel_lookup?_insert {κ α β : Type} [DecidableEq κ] {R : α → β → Prop} {b : Bindings κ α}
    {b' : Bindings κ β} (h : ∀ name, Option.Rel R (b.lookup? name) (b'.lookup? name)) (name : κ)
    {a : α} {a' : β} (ha : R a a') (other : κ) :
    Option.Rel R ((b.insert name a).lookup? other) ((b'.insert name a').lookup? other) := by
  by_cases hname : other = name
  · subst hname
    simpa only [Bindings.lookup?_insert_self] using .some ha
  · simpa only [Bindings.lookup?_insert_of_ne _ hname] using h other

/-- The primitive of a walk from one pose to another. -/
def Turtle.walked (t u : Turtle) : Primitive :=
  if t.penDown then .lineTo u.x u.y else .moveTo u.x u.y

/-- Turtles that are alike stay so under the same commands, and what is drawn is alike. -/
structure Steerable (Turtles : Turtle → Turtle → Prop) (Drawn : Primitive → Primitive → Prop) :
    Prop where
  walk : ∀ {t t'}, Turtles t t' → ∀ distance offset,
    Option.Rel (fun u u' => Turtles u u' ∧ Drawn (t.walked u) (t'.walked u'))
      (t.move distance offset) (t'.move distance offset)
  turn : ∀ {t t'}, Turtles t t' → ∀ d, Turtles (t.turn d) (t'.turn d)
  head : ∀ {t t'}, Turtles t t' → ∀ d, Turtles { t with heading := d } { t' with heading := d }
  placeX : ∀ {t t'}, Turtles t t' → ∀ d, Turtles { t with x := d } { t' with x := d } ∧
    Drawn (.moveTo d t.y) (.moveTo d t'.y)
  placeY : ∀ {t t'}, Turtles t t' → ∀ d, Turtles { t with y := d } { t' with y := d } ∧
    Drawn (.moveTo t.x d) (.moveTo t'.x d)
  pen : ∀ {t t'}, Turtles t t' → ∀ down,
    Turtles { t with penDown := down } { t' with penDown := down } ∧
      Drawn (.penState down) (.penState down)
  color : ∀ {t t'}, Turtles t t' → ∀ n, Turtles { t with color := n } { t' with color := n } ∧
    Drawn (.setColor n) (.setColor n)

/-- Turtles that do not differ at all. -/
theorem Steerable.same : Steerable Eq Eq where
  walk := by
    rintro t _ rfl distance offset
    cases t.move distance offset with
    | none => exact .none
    | some u => exact .some ⟨rfl, rfl⟩
  turn := by
    rintro t _ rfl d
    rfl
  head := by
    rintro t _ rfl d
    rfl
  placeX := by
    rintro t _ rfl d
    exact ⟨rfl, rfl⟩
  placeY := by
    rintro t _ rfl d
    exact ⟨rfl, rfl⟩
  pen := by
    rintro t _ rfl down
    exact ⟨rfl, rfl⟩
  color := by
    rintro t _ rfl n
    exact ⟨rfl, rfl⟩

section

variable (Turtles : Turtle → Turtle → Prop) (Drawn : Primitive → Primitive → Prop)
  (Values : Value → Value → Prop)

/-- Two commands fail alike, or steer turtles alike, or set a variable to values that are alike. -/
inductive AlikeEffect (env env' : Environment) (target target' : Option String) :
    Except Halt Effect → Except Halt Effect → Prop where
  | failed (why : Halt) : AlikeEffect env env' target target' (.error why) (.error why)
  | steered {t t' : Turtle} {drawn drawn' : Option Primitive} : Turtles t t' →
      Option.Rel Drawn drawn drawn' →
      AlikeEffect env env' target target' (.ok ({ env with turtle := t }, drawn))
        (.ok ({ env' with turtle := t' }, drawn'))
  | assigned {v v' : Value} : Values v v' →
      AlikeEffect env env' target target' (.ok (env.assign target v, none))
        (.ok (env'.assign target' v', none))

/-- Values are read as the same number, and a number is like itself. -/
structure SameNumbers : Prop where
  toNumber : ∀ {v v'}, Values v v' → v'.toNumber = v.toNumber
  refl : ∀ x, Values (.number x) (.number x)

end

theorem SameNumbers.same : SameNumbers Eq where
  toNumber := by
    rintro v _ rfl
    rfl
  refl _ := rfl

section

variable {Turtles : Turtle → Turtle → Prop} {Drawn : Primitive → Primitive → Prop}
  {Values : Value → Value → Prop} {env env' : Environment} {target target' : Option String}
  {operands operands' : List Expr}

theorem AlikeEffect.agreed {Failures : Halt → Halt → Prop} {Effects : Effect → Effect → Prop}
    {r r' : Except Halt Effect} (h : AlikeEffect Turtles Drawn Values env env' target target' r r')
    (hfailed : ∀ why, Failures why why)
    (hsteered : ∀ {t t' drawn drawn'}, Turtles t t' → Option.Rel Drawn drawn drawn' →
      Effects ({ env with turtle := t }, drawn) ({ env' with turtle := t' }, drawn'))
    (hassigned : ∀ {v v'}, Values v v' →
      Effects (env.assign target v, none) (env'.assign target' v', none)) :
    Agreed Failures Effects r r' := by
  cases h with
  | failed why => exact .error (hfailed why)
  | steered ht hdrawn => exact .ok (hsteered ht hdrawn)
  | assigned hv => exact .ok (hassigned hv)

theorem operandNumber_alike (hnumbers : SameNumbers Values)
    (hvalue : Agreed Eq Values (operandValue env operands) (operandValue env' operands')) :
    operandNumber env' operands' = operandNumber env operands := by
  obtain ⟨why, _, h, h', rfl⟩ | ⟨v, v', h, h', hv⟩ := hvalue.error_or_ok
  · simp only [operandNumber, h, h']
  · simp only [operandNumber, h, h', hnumbers.toNumber hv]

theorem makeVariable_alike
    (hvalue : Agreed Eq Values (operandValue env operands) (operandValue env' operands')) :
    AlikeEffect Turtles Drawn Values env env' target target' (makeVariable env operands target)
      (makeVariable env' operands' target') := by
  obtain ⟨why, _, h, h', rfl⟩ | ⟨v, v', h, h', hv⟩ := hvalue.error_or_ok
  · simp only [makeVariable, h, h']
    exact .failed why
  · simp only [makeVariable, h, h']
    exact .assigned hv

variable (hnumber : operandNumber env' operands' = operandNumber env operands)

include hnumber

theorem addToVariable_alike (hnumbers : SameNumbers Values)
    (hlookup : Option.Rel Values (env.lookup? target) (env'.lookup? target'))
    (hmissed : env.lookup? target = none → target' = target) :
    AlikeEffect Turtles Drawn Values env env' target target' (addToVariable env operands target)
      (addToVariable env' operands' target') := by
  simp only [addToVariable, hnumber, Environment.addTo?]
  split
  · exact .failed _
  · generalize hv : env.lookup? target = found at hlookup
    generalize env'.lookup? target' = found' at hlookup
    cases hlookup with
    | none =>
      rw [hmissed hv]
      exact .failed _
    | some hvalues =>
      simp only [hnumbers.toNumber hvalues]
      exact .assigned (hnumbers.refl _)

theorem steer_alike {change : Turtle → Float → Turtle}
    (hchange : ∀ d, Turtles (change env.turtle d) (change env'.turtle d)) :
    AlikeEffect Turtles Drawn Values env env' target target' (steer env operands change)
      (steer env' operands' change) := by
  simp only [steer, hnumber]
  split
  · exact .failed _
  · exact .steered (hchange _) .none

theorem place_alike {change : Turtle → Float → Turtle}
    (hchange : ∀ d, Turtles (change env.turtle d) (change env'.turtle d) ∧
      Drawn (.moveTo (change env.turtle d).x (change env.turtle d).y)
        (.moveTo (change env'.turtle d).x (change env'.turtle d).y)) :
    AlikeEffect Turtles Drawn Values env env' target target' (place env operands change)
      (place env' operands' change) := by
  simp only [place, hnumber]
  split
  · exact .failed _
  · exact .steered (hchange _).1 (.some (hchange _).2)

variable (hsteer : Steerable Turtles Drawn) (hturtle : Turtles env.turtle env'.turtle)

include hsteer hturtle

theorem walkOperand_alike (sign offset : Float) :
    AlikeEffect Turtles Drawn Values env env' target target' (walkOperand env operands sign offset)
      (walkOperand env' operands' sign offset) := by
  simp only [walkOperand, hnumber, walk]
  split
  · exact .failed _
  · rename_i d _
    have hwalk := hsteer.walk hturtle (sign * d) offset
    generalize env.turtle.move (sign * d) offset = moved at hwalk
    generalize env'.turtle.move (sign * d) offset = moved' at hwalk
    cases hwalk with
    | none => exact .failed _
    | some h => exact .steered h.1 (.some h.2)

theorem setColor_alike :
    AlikeEffect Turtles Drawn Values env env' target target' (setColor env operands)
      (setColor env' operands') := by
  simp only [setColor, hnumber]
  split
  · exact .failed _
  · split
    · exact .failed _
    · have hcolor := hsteer.color hturtle
      exact .steered (hcolor _).1 (.some (hcolor _).2)

end

/-- A command does alike for turtles that are alike, if its operand has the same number for a value
and its variable is read as the same number. -/
theorem perform_alike {Turtles : Turtle → Turtle → Prop} {Drawn : Primitive → Primitive → Prop}
    {Values : Value → Value → Prop} {env env' : Environment} {target target' : Option String}
    {operands operands' : List Expr} (hsteer : Steerable Turtles Drawn)
    (hnumbers : SameNumbers Values) (hturtle : Turtles env.turtle env'.turtle) (v : Verb)
    (hvalue : Agreed Eq Values (operandValue env operands) (operandValue env' operands'))
    (hlookup : Option.Rel Values (env.lookup? target) (env'.lookup? target'))
    (hmissed : env.lookup? target = none → target' = target) :
    AlikeEffect Turtles Drawn Values env env' target target' (perform env v operands target)
      (perform env' v operands' target') := by
  have hnumber := operandNumber_alike hnumbers hvalue
  cases v with
  | penUp => exact .steered (hsteer.pen hturtle false).1 (.some (hsteer.pen hturtle false).2)
  | penDown => exact .steered (hsteer.pen hturtle true).1 (.some (hsteer.pen hturtle true).2)
  | forward => exact walkOperand_alike hnumber hsteer hturtle _ _
  | back => exact walkOperand_alike hnumber hsteer hturtle _ _
  | left => exact walkOperand_alike hnumber hsteer hturtle _ _
  | right => exact walkOperand_alike hnumber hsteer hturtle _ _
  | turn => exact steer_alike hnumber (hsteer.turn hturtle)
  | setHeading =>
    simp only [perform]
    exact steer_alike hnumber (hsteer.head hturtle)
  | setX =>
    simp only [perform]
    exact place_alike hnumber (hsteer.placeX hturtle)
  | setY =>
    simp only [perform]
    exact place_alike hnumber (hsteer.placeY hturtle)
  | setPenColor => exact setColor_alike hnumber hsteer hturtle
  | make => exact makeVariable_alike hvalue
  | addAssign => exact addToVariable_alike hnumber hnumbers hlookup hmissed
  | unknown w => exact .failed _

/-! ## Calls -/

/-- Calls with as many arguments fail alike, or enter procedures that are related with values that
are. -/
theorem enterCall_alike {Procedures : Procedure → Procedure → Prop}
    {Values : List Value → List Value → Prop} {env env' : Environment} {name : String}
    {arguments arguments' : List Expr} (hlength : arguments'.length = arguments.length)
    (hprocedure : Option.Rel Procedures (env.procedures.lookup? name)
      (env'.procedures.lookup? name))
    (hparameters : ∀ {p p'}, Procedures p p' → p'.parameters.length = p.parameters.length)
    (hvalues : Agreed Eq Values (Expr.evalAll env arguments) (Expr.evalAll env' arguments')) :
    (∃ f, enterCall env name arguments = .error f ∧ enterCall env' name arguments' = .error f) ∨
      ∃ p p' vs vs', Procedures p p' ∧ Values vs vs' ∧
        Expr.evalAll env arguments = .ok vs ∧ arguments.length = p.parameters.length ∧
        enterCall env name arguments = .ok (.ofList (p.parameters.zip vs), p.body) ∧
        enterCall env' name arguments' = .ok (.ofList (p'.parameters.zip vs'), p'.body) := by
  simp only [enterCall, hlength]
  generalize env.procedures.lookup? name = found at hprocedure
  generalize env'.procedures.lookup? name = found' at hprocedure
  cases hprocedure with
  | none => exact .inl ⟨_, rfl, rfl⟩
  | @some p p' hp =>
    simp only [hparameters hp]
    by_cases harity : arguments.length = p.parameters.length
    · simp only [if_pos harity]
      obtain ⟨f, _, hvs, hvs', rfl⟩ | ⟨vs, vs', hvs, hvs', hsame⟩ := hvalues.error_or_ok
      · simp only [hvs, hvs']
        exact .inl ⟨f, rfl, rfl⟩
      · simp only [hvs, hvs']
        exact .inr ⟨p, p', vs, vs', hp, hsame, rfl, harity, rfl, rfl⟩
    · simp only [if_neg harity]
      exact .inl ⟨_, rfl, rfl⟩

end TurtleGraphics
