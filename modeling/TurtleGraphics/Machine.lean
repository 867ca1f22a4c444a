import TurtleGraphics.Environment
import TurtleGraphics.Log

/-!
# TurtleGraphics.Machine

A run in progress: the environment, and what the run has given out so far.

* `Primitive` : an instruction to whoever draws.
* `Machine`   : the environment with the primitives and events so far.
* `Outcome`   : how the execution of something ended, and the machine it left.
-/

namespace TurtleGraphics

/-- An instruction to whoever draws. -/
inductive Primitive where
  | moveTo (x y : Float)
  | lineTo (x y : Float)
  | setColor (index : Int)
  | penState (down : Bool)
deriving Repr, DecidableEq

/-- A run in progress. -/
structure Machine where
  env : Environment
  primitives : Array Primitive
  events : Array Event
deriving Repr

namespace Machine

/-- A run that has not given out anything. -/
def on (env : Environment) : Machine := ⟨env, #[], #[]⟩

/-- Gives out a primitive. -/
def emit (m : Machine) (p : Primitive) : Machine :=
  { m with primitives := m.primitives.push p }

/-- Records an event. -/
def log (m : Machine) (e : Event) : Machine :=
  { m with events := m.events.push e }

/-- The machine after a command that changed the environment and may have drawn something. -/
def after (m : Machine) (env : Environment) (drawn : Option Primitive) : Machine :=
  match drawn with
  | some p => { m with env := env, primitives := m.primitives.push p }
  | none => { m with env := env }

@[simp] theorem after_env (m : Machine) (env : Environment) (drawn : Option Primitive) :
    (m.after env drawn).env = env := by
  cases drawn <;> rfl

/-- Defines a procedure. -/
def define (m : Machine) (name : String) (p : Procedure) : Machine :=
  { m with env := m.env.define name p, events := m.events.push (.defined name) }

/-- Enters a call with its parameters. -/
def pushScope (m : Machine) (scope : Scope) : Machine :=
  { m with env := m.env.pushScope scope }

/-- Leaves the innermost call. -/
def popScope (m : Machine) : Machine :=
  { m with env := m.env.popScope }

end Machine

/-- How the execution of something ended, with the machine as it was left. -/
inductive Outcome where
  | done (m : Machine)
  | halted (why : Halt) (m : Machine)
deriving Repr

namespace Outcome

/-- The machine as it was left. -/
def machine : Outcome → Machine
  | .done m => m
  | .halted _ m => m

/-- Leaves the innermost call, however its body ended. -/
def popScope : Outcome → Outcome
  | .done m => .done m.popScope
  | .halted why m => .halted why m.popScope

end Outcome

end TurtleGraphics
