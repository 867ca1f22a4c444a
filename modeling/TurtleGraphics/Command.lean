import TurtleGraphics.Eval
import TurtleGraphics.Machine

/-!
# TurtleGraphics.Command

What a command does. A command gives a changed environment and at most one primitive, or fails and
then changes nothing.

* `operandValue`, `operandNumber` : the operand of a command.
* `walk`                          : the movement behind four of the commands.
* `perform`                       : any command.
-/

namespace TurtleGraphics

/-- A fault that no statement has been named for yet. -/
def Halt.ofFault (f : Fault) : Halt := .error ⟨f, none⟩

/-- The value of the operand of a command. -/
def operandValue (env : Environment) (operands : List Expr) : Except Halt Value :=
  match operands with
  | [] => .error .noOperand
  | e :: _ =>
    match e.eval env with
    | .error f => .error (.ofFault f)
    | .ok v => .ok v

/-- The value of the operand of a command, as a number. -/
def operandNumber (env : Environment) (operands : List Expr) : Except Halt Float :=
  match operandValue env operands with
  | .error h => .error h
  | .ok v => .ok v.toNumber

/-- What a command changes, and the primitive that it draws. -/
abbrev Effect := Environment × Option Primitive

/-- A walk of the turtle, drawn as a line if the pen is down. -/
def walk (env : Environment) (distance offset : Float) : Except Halt Effect :=
  match env.turtle.move distance offset with
  | none => .error .noDirection
  | some t =>
    .ok ({ env with turtle := t },
      some (if env.turtle.penDown then .lineTo t.x t.y else .moveTo t.x t.y))

/-- A walk in the direction of the operand's sign or against it. -/
def walkOperand (env : Environment) (operands : List Expr) (sign offset : Float) :
    Except Halt Effect :=
  match operandNumber env operands with
  | .error h => .error h
  | .ok d => walk env (sign * d) offset

/-- A change of the turtle by the operand that draws nothing. -/
def steer (env : Environment) (operands : List Expr) (change : Turtle → Float → Turtle) :
    Except Halt Effect :=
  match operandNumber env operands with
  | .error h => .error h
  | .ok d => .ok ({ env with turtle := change env.turtle d }, none)

/-- A change of one coordinate by the operand; the pen draws nothing on the way. -/
def place (env : Environment) (operands : List Expr) (change : Turtle → Float → Turtle) :
    Except Halt Effect :=
  match operandNumber env operands with
  | .error h => .error h
  | .ok d =>
    let t := change env.turtle d
    .ok ({ env with turtle := t }, some (.moveTo t.x t.y))

/-- The pen lowered or lifted. -/
def setPen (env : Environment) (down : Bool) : Effect :=
  ({ env with turtle := { env.turtle with penDown := down } }, some (.penState down))

/-- The pen in the colour of the operand. -/
def setColor (env : Environment) (operands : List Expr) : Except Halt Effect :=
  match operandNumber env operands with
  | .error h => .error h
  | .ok x =>
    match colorIndex (.number x) with
    | .error f => .error (.ofFault f)
    | .ok n => .ok ({ env with turtle := { env.turtle with color := n } }, some (.setColor n))

/-- A variable set to the operand; without a target it is the one that has no name. -/
def makeVariable (env : Environment) (operands : List Expr) (target : Option String) :
    Except Halt Effect :=
  match operandValue env operands with
  | .error h => .error h
  | .ok v => .ok (env.assign target v, none)

/-- The operand added to a variable. -/
def addToVariable (env : Environment) (operands : List Expr) (target : Option String) :
    Except Halt Effect :=
  match operandNumber env operands with
  | .error h => .error h
  | .ok amount =>
    match env.addTo? target amount with
    | some (env₁, _) => .ok (env₁, none)
    | none => .error (.ofFault (.undefinedVariable target))

/-- What a command does in an environment. -/
def perform (env : Environment) (v : Verb) (operands : List Expr) (target : Option String) :
    Except Halt Effect :=
  match v with
  | .penUp => .ok (setPen env false)
  | .penDown => .ok (setPen env true)
  | .forward => walkOperand env operands 1.0 0.0
  | .back => walkOperand env operands (-1.0) 0.0
  | .left => walkOperand env operands 1.0 (-90.0)
  | .right => walkOperand env operands 1.0 90.0
  | .turn => steer env operands Turtle.turn
  | .setHeading => steer env operands (fun t d => { t with heading := d })
  | .setX => place env operands (fun t d => { t with x := d })
  | .setY => place env operands (fun t d => { t with y := d })
  | .setPenColor => setColor env operands
  | .make => makeVariable env operands target
  | .addAssign => addToVariable env operands target
  | .unknown w => .error (.ofFault (.unknownCommand w))

end TurtleGraphics
