import TurtleGraphics.Execution

/-!
# TurtleGraphics.Interpreter

An interpreter runs one script on an environment, and once only.

* `Limits`          : the bounds of an execution.
* `Interpreter.run` : runs a script, if the interpreter has not run one before.
-/

namespace TurtleGraphics

/-- How deep an execution may be nested, and how many steps it may take. -/
structure Limits where
  depth : Nat
  steps : Nat
deriving Repr, DecidableEq

/-- Executes the statements of a script or a block from its first to its last. -/
def Machine.execute (m : Machine) (limits : Limits) (script : Script) : Outcome :=
  executeBlock limits.steps limits.depth script m

/-- An interpreter: a run, whether it is over, and what ended it if that was a failure. -/
structure Interpreter where
  machine : Machine
  status : Status
  failure : Option Halt
deriving Repr

namespace Interpreter

/-- An interpreter that has not run anything. -/
def on (env : Environment) : Interpreter := ⟨.on env, .running, none⟩

/-- The environment of an interpreter. -/
def env (i : Interpreter) : Environment := i.machine.env

/-- The primitives that an interpreter has given out. -/
def primitives (i : Interpreter) : List Primitive := i.machine.primitives.toList

/-- The machine at the start of a run: the first primitive is the place of the turtle. -/
def started (m : Machine) : Machine :=
  m.emit (.moveTo m.env.turtle.x m.env.turtle.y)

/-- Runs a script and tells what went wrong, if anything did. -/
def run (limits : Limits) (i : Interpreter) (script : Script) : Interpreter × Option Halt :=
  match i.status with
  | .running =>
    match (started i.machine).execute limits script with
    | .done m => (⟨m.log (.finished m.primitives.size), .haltedSuccess, none⟩, none)
    | .halted h m => (⟨m.log (.halted h.message), .haltedError, some h⟩, some h)
  | status => (i, some (.ofFault (.alreadyFinished status)))

end Interpreter

end TurtleGraphics
