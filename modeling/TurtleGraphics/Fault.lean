import TurtleGraphics.Palette
import TurtleGraphics.Syntax.Basic
import TurtleGraphics.Value

/-!
# TurtleGraphics.Fault

Why the execution of a statement fails.

* `Fault`     : what a script does wrong.
* `ExecError` : a fault with the statement that was being executed.
* `Halt`      : everything that can end a run early. A script error is reported to whoever runs
  the script; the other ends are not the script's fault in that sense and pass through.
-/

namespace TurtleGraphics

/-- The states of an interpreter: it runs one script, and then has finished for good. -/
inductive Status where
  | running
  | haltedSuccess
  | haltedError
deriving Repr, DecidableEq

/-- The name of a state. -/
def Status.text : Status → String
  | .running => "running"
  | .haltedSuccess => "halted_success"
  | .haltedError => "halted_error"

/-- What a script does wrong. -/
inductive Fault where
  /-- The variable is not bound. Without a name it is the one of the commands without a target. -/
  | undefinedVariable (name : Option String)
  | divisionByZero
  | undefinedProcedure (name : String)
  | argumentCount (procedure : String) (expected given : Nat)
  | unknownCommand (word : String)
  | unknownOperator (word : String)
  | unknownQuery (word : String)
  | colorNotWhole (value : Value)
  | colorOutOfRange (value : Value)
  | misfit (part : Misfit)
  | alreadyFinished (status : Status)
deriving Repr

namespace Fault

/-- The kind of a fault, under which it is reported. -/
def kind : Fault → String
  | .undefinedVariable _ => "UndefinedVariable"
  | .divisionByZero => "DivisionByZero"
  | .undefinedProcedure _ => "UndefinedProcedure"
  | .argumentCount _ _ _ => "InvalidOperandType"
  | .unknownCommand _ => "InvalidOperandType"
  | .unknownOperator _ => "InvalidOperandType"
  | .unknownQuery _ => "InvalidOperandType"
  | .colorNotWhole _ => "InvalidOperandType"
  | .colorOutOfRange _ => "InvalidOperandType"
  | .misfit _ => "InvalidOperandType"
  | .alreadyFinished _ => "InterpreterHalted"

/-- A fault in words. -/
def message : Fault → String
  | .undefinedVariable name => "Variable not found: ':" ++ name.getD "None" ++ "'"
  | .divisionByZero => "Division by zero"
  | .undefinedProcedure name => "Procedure not defined: '" ++ name ++ "'"
  | .argumentCount procedure expected given =>
    procedure ++ " takes " ++ toString expected ++ " arguments, got " ++ toString given
  | .unknownCommand w => "Unknown command: " ++ Text.quoted w
  | .unknownOperator w => "Unknown operator: " ++ Text.quoted w
  | .unknownQuery w => "Unknown query: " ++ Text.quoted w
  | .colorNotWhole v => "Colour index must be a whole number, got " ++ v.text
  | .colorOutOfRange v =>
    "Colour index must be between 0 and " ++ toString (paletteSize - 1) ++ " inclusive, got " ++
      v.text
  | .misfit m => m.message
  | .alreadyFinished status => "Interpreter already finished (" ++ status.text ++ ")"

end Fault

/-- A fault, with the summary of the innermost statement that was being executed. -/
structure ExecError where
  fault : Fault
  context : Option String
deriving Repr

/-- The error in words. -/
def ExecError.message (e : ExecError) : String :=
  match e.context with
  | none => e.fault.message
  | some summary =>
    if summary = "" then e.fault.message
    else e.fault.message ++ " (while executing " ++ summary ++ ")"

/-- What ends a run early. -/
inductive Halt where
  | error (e : ExecError)
  /-- The turtle was to move in a direction that is infinite. -/
  | noDirection
  /-- A command lacks an operand that it needs. -/
  | noOperand
  /-- The statement at fault cannot be shown, because a part of it is misplaced. -/
  | unprintable (part : Misfit)
  /-- The nesting of blocks and calls is deeper than the limit. -/
  | tooDeep
  /-- The run takes more steps than the limit. -/
  | outOfSteps
deriving Repr

/-- The end of a run in words. -/
def Halt.message : Halt → String
  | .error e => e.message
  | .noDirection => "math domain error"
  | .noOperand => "list index out of range"
  | .unprintable m => m.message
  | .tooDeep => "maximum recursion depth exceeded"
  | .outOfSteps => "out of steps"

end TurtleGraphics
