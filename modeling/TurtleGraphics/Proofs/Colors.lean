import TurtleGraphics.Program
import TurtleGraphics.Proofs.Drawing

/-!
# TurtleGraphics.Proofs.Colors

The colours of a run are colours of the palette.

* `InPalette`              : the indices of colours.
* `Machine.InColors`       : the invariant, that the turtle has such a colour, and that no primitive
  sets another.
* `Steers.inPalette`       : what one command does to the colour.
* `colorIndex_ofInt`       : a colour of the palette, asked for as a number, is that colour again.
* `Machine.KeepsColor`     : the pen can be set to the colour that it has, and nothing comes of it.
* `run_stays_in_palette`   : the invariant through a run to any end, and with it the second.

A script computes its colours from any numbers whatever. What keeps them in the palette is the check
in front of the only command that sets one; a number that does not pass changes nothing.
-/

namespace TurtleGraphics

/-- The index of a colour of the palette. -/
def InPalette (n : Int) : Prop := 0 ≤ n ∧ n < Int.ofNat paletteSize

instance (n : Int) : Decidable (InPalette n) := inferInstanceAs (Decidable (_ ∧ _))

theorem inPalette_defaultColor : InPalette defaultColor := by decide

/-! ## Colours that are set -/

/-- The turtle has a colour of the palette, and so does every primitive that sets one. -/
structure Machine.InColors (m : Machine) : Prop where
  turtle : InPalette m.env.turtle.color
  drawn : ∀ n, .setColor n ∈ m.primitives.toList → InPalette n

/-- A command gives the turtle a colour of the palette or leaves it the one that it has, and tells
of no other. -/
theorem Verb.Steers.inPalette {v : Verb} {t t' : Turtle} {drawn : Option Primitive}
    (h : v.Steers t t' drawn) (ht : InPalette t.color) :
    InPalette t'.color ∧ ∀ n, drawn = some (.setColor n) → InPalette n := by
  cases h with
  | walk _ hmove =>
    rw [Turtle.move_eq_some hmove]
    refine ⟨ht, fun n hn => ?_⟩
    split at hn <;> cases hn
  | head _ => exact ⟨ht, nofun⟩
  | place _ => exact ⟨ht, nofun⟩
  | pen _ => exact ⟨ht, nofun⟩
  | color _ hlow hhigh =>
    refine ⟨⟨hlow, hhigh⟩, fun n hn => ?_⟩
    cases hn
    exact ⟨hlow, hhigh⟩

theorem Machine.InColors.command {m : Machine} (h : m.InColors) {v : Verb}
    {operands : List Expr} {target : Option String} {env : Environment}
    {drawn : Option Primitive} (hp : perform m.env v operands target = .ok (env, drawn)) :
    (m.after env drawn).InColors := by
  have hstep : InPalette env.turtle.color ∧ ∀ n, drawn = some (.setColor n) → InPalette n := by
    obtain ⟨t, rfl, hsteers⟩ | ⟨-, rfl, value, rfl⟩ := perform_cases hp
    · exact hsteers.inPalette h.turtle
    · rw [Environment.turtle_assign]
      exact ⟨h.turtle, nofun⟩
  constructor
  · rw [Machine.after_env]
    exact hstep.1
  · intro n hn
    rw [Machine.primitives_after, List.mem_append, Option.mem_toList] at hn
    exact hn.elim (h.drawn n) (hstep.2 n)

theorem upholds_inColors :
    Upholds (fun _ => Machine.InColors) (fun m m' => m.InColors → m'.InColors) :=
  .of_invariant (fun h hp => h.command hp) (fun _ _ _ h => ⟨h.turtle, h.drawn⟩)
    (fun _ _ h => ⟨h.turtle, h.drawn⟩) (fun _ h => ⟨h.turtle, h.drawn⟩)

/-! ## The colour that the pen has -/

/-- The colours of the palette are numbers that stand for themselves. -/
theorem whole?_ofInt {n : Int} (h : InPalette n) : Number.whole? (Float.ofInt n) = some n := by
  have hall : ∀ k : Fin paletteSize,
      Number.whole? (Float.ofInt (Int.ofNat k)) = some (Int.ofNat k) := by decide +kernel
  obtain ⟨k, rfl⟩ := Int.eq_ofNat_of_zero_le h.1
  exact hall ⟨k, Int.ofNat_lt.mp h.2⟩

theorem colorIndex_ofInt {n : Int} (h : InPalette n) :
    colorIndex (.number (Float.ofInt n)) = .ok n := by
  simp only [colorIndex, whole?_ofInt h]
  exact if_pos h

/-- The command that sets the pen to the colour that it has. -/
def Stmt.keepColor : Stmt := .command .setPenColor [.query .color] none

/-- The pen can be set to the colour that it has. Nothing but the primitive comes of it. -/
def Machine.KeepsColor (m : Machine) : Prop :=
  ∀ steps depth, TurtleGraphics.execute (steps + 1) depth .keepColor m =
    .done (m.emit (.setColor m.env.turtle.color))

theorem Machine.keepsColor {m : Machine} (h : InPalette m.env.turtle.color) : m.KeepsColor := by
  intro steps depth
  simp only [TurtleGraphics.execute, Stmt.keepColor, perform, setColor, operandNumber, operandValue,
    Expr.eval, Turtle.query, Value.toNumber, colorIndex_ofInt h]
  rfl

/-- This is how a text spells the command. -/
example : parseScript 9 "SETPENCOLOR COLOR" = .ok [.keepColor] := by with_unfolding_all rfl

/-! ## Runs -/

/-- A turtle with a colour of the palette keeps to the palette through a run to any end: at every
moment its colour and the colours of all primitives so far are of the palette, and the pen can be
set to the colour that it has. -/
theorem run_stays_in_palette {env : Environment} (hcolor : InPalette env.turtle.color)
    (limits : Limits) (script : Script) :
    let i := ((Interpreter.on env).run limits script).1
    (i.machine.InColors ∧ i.machine.KeepsColor) ∧
    ∀ c, (Moment.ofRun limits env script).Reaches c →
      (c.machine.InColors ∧ c.machine.KeepsColor) ∧
      c.outcome.machine.InColors ∧ c.outcome.machine.KeepsColor := by
  intro i
  have hstart : (Moment.ofRun limits env script).machine.InColors := by
    refine ⟨hcolor, fun n hn => ?_⟩
    simp [Moment.ofRun, Interpreter.started, Machine.emit, Machine.on] at hn
  have hboth : ∀ {m : Machine}, m.InColors → m.InColors ∧ m.KeepsColor :=
    fun h => ⟨h, Machine.keepsColor h.turtle⟩
  have houtcome : ∀ {c : Moment}, c.machine.InColors → c.outcome.machine.InColors :=
    fun h => upholds_inColors.outcome h h
  refine ⟨?_, fun c hr => ?_⟩
  · obtain ⟨hturtle, hdrawn⟩ := houtcome hstart
    rw [← Interpreter.env_run] at hturtle
    rw [← Interpreter.primitives_run] at hdrawn
    exact hboth ⟨hturtle, hdrawn⟩
  · have hc : c.machine.InColors := upholds_inColors.reaches hstart hr
    exact ⟨hboth hc, hboth (houtcome hc)⟩

/-- A truth value is taken as a colour and a fraction is not, so the run ends with the first
colour. -/
theorem run_stays_in_palette_fraction :
    let script : Script :=
      [.define "P" ["c"] [.command .setPenColor [.variable "c"] none], .call "P" [.boolean true],
        .call "P" [.numeric .div (.number 1.0) (.number 2.0)]]
    let env : Environment := .fresh (.startingAt 0.0 0.0)
    let i := ((Interpreter.on env).run ⟨9, 99⟩ script).1
    InPalette env.turtle.color ∧
      i.failure.map Halt.message = some
        "Colour index must be a whole number, got 0.5 (while executing SETPENCOLOR :c)" ∧
      i.env.turtle.color = 1 ∧ i.primitives = [.moveTo 0.0 0.0, .setColor 1] ∧
      i.machine.InColors ∧ i.machine.KeepsColor := by
  intro script env i
  have hcolor : InPalette env.turtle.color := inPalette_defaultColor
  have hfailure : i.failure.map Halt.message = some
      "Colour index must be a whole number, got 0.5 (while executing SETPENCOLOR :c)" := by
    decide +kernel
  have hfirst : i.env.turtle.color = 1 ∧ i.primitives = [.moveTo 0.0 0.0, .setColor 1] := by
    decide +kernel
  exact ⟨hcolor, hfailure, hfirst.1, hfirst.2, (run_stays_in_palette hcolor ⟨9, 99⟩ script).1⟩

end TurtleGraphics
