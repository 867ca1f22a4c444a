import TurtleGraphics.Bindings
import TurtleGraphics.Turtle

/-!
# TurtleGraphics.Environment

Everything that a running script can change: the turtle, the variables and the procedures.

* `Environment.lookup?`   : the value of a variable.
* `Environment.assign`    : sets a variable.
* `Environment.addTo?`    : adds to a variable.
* `pushScope`, `popScope` : the parameters of a call.

A name means the parameter of the innermost call if that call has one of the name, and the global
variable otherwise. The parameters of outer calls are out of sight. Besides the named variables
there is one global without a name; it belongs to the commands that have no target, and no
expression can read it.
-/

namespace TurtleGraphics

/-- What `TO` defines. -/
structure Procedure where
  parameters : List String
  body : List Stmt
deriving Repr

/-- The parameters of a call. -/
abbrev Scope := Bindings String Value

/-- Global variables. The key `none` is that of the variable without a name. -/
abbrev Globals := Bindings (Option String) Value

/-- The state of a running script; the scope of the innermost call stands first. -/
structure Environment where
  turtle : Turtle
  globals : Globals
  scopes : List Scope
  procedures : Bindings String Procedure
deriving Repr

namespace Environment

/-- Nothing is defined yet. -/
def fresh (t : Turtle) : Environment := ⟨t, .empty, [], .empty⟩

/-- The parameters of the innermost call. -/
def localScope? (env : Environment) : Option Scope :=
  env.scopes.head?

/-- How many calls are being executed. -/
def depth (env : Environment) : Nat := env.scopes.length

/-- The value of a variable. -/
def lookup? (env : Environment) (name : Option String) : Option Value :=
  match name, env.scopes with
  | some parameter, scope :: _ =>
    match scope.lookup? parameter with
    | some v => some v
    | none => env.globals.lookup? name
  | _, _ => env.globals.lookup? name

/-- Sets a global variable. -/
def assignGlobal (env : Environment) (name : Option String) (v : Value) : Environment :=
  { env with globals := env.globals.insert name v }

/-- Sets a parameter of the innermost call if there is one of that name, or else a global. -/
def assign (env : Environment) (name : Option String) (v : Value) : Environment :=
  match name, env.scopes with
  | some parameter, scope :: outer =>
    if scope.contains parameter then { env with scopes := scope.insert parameter v :: outer }
    else env.assignGlobal name v
  | _, _ => env.assignGlobal name v

/-- Adds to a variable that is bound, and gives the sum. -/
def addTo? (env : Environment) (name : Option String) (amount : Float) :
    Option (Environment × Float) :=
  match env.lookup? name with
  | none => none
  | some v =>
    let sum := v.toNumber + amount
    some (env.assign name (.number sum), sum)

/-- Defines a procedure, in place of an earlier one of the same name. -/
def define (env : Environment) (name : String) (p : Procedure) : Environment :=
  { env with procedures := env.procedures.insert name p }

/-- Enters a call with its parameters. -/
def pushScope (env : Environment) (scope : Scope) : Environment :=
  { env with scopes := scope :: env.scopes }

/-- Leaves the innermost call. -/
def popScope (env : Environment) : Environment :=
  { env with scopes := env.scopes.tail }

end Environment

end TurtleGraphics
