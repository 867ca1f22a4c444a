import TurtleGraphics.Command
import TurtleGraphics.Syntax.Printer

/-!
# TurtleGraphics.Execution

The execution of statements.

* `Halt.inStatement` : an error gets the summary of the innermost statement.
* `enterCall`        : the scope and body of a call.
* `execute`          : one statement; `executeBlock` a block.

Two numbers bound an execution. `depth` is the number of blocks and bodies that may still be
entered one inside the other; a run that needs more ends with `tooDeep`. `steps` only makes the
recursion of the definitions end: every call of one of the four functions takes one step from its
caller, and a run that needs more ends with `outOfSteps`.
-/

namespace TurtleGraphics

/-- An error as it leaves a statement: named after it, unless an inner statement did so before. A
statement that cannot be shown spoils the error. -/
def Halt.inStatement (s : Stmt) : Halt → Halt
  | .error ⟨f, none⟩ =>
    match s.summary with
    | .ok summary => .error ⟨f, some summary⟩
    | .error m => .unprintable m
  | h => h

/-- The parameters and the body of a call. The arguments are evaluated in the caller's scope, and
the procedure is the one defined at the moment. -/
def enterCall (env : Environment) (name : String) (arguments : List Expr) :
    Except Fault (Scope × List Stmt) :=
  match env.procedures.lookup? name with
  | none => .error (.undefinedProcedure name)
  | some p =>
    if arguments.length = p.parameters.length then
      match Expr.evalAll env arguments with
      | .error f => .error f
      | .ok vs => .ok (.ofList (p.parameters.zip vs), p.body)
    else .error (.argumentCount name p.parameters.length arguments.length)

mutual

/-- Executes one statement. -/
def execute : Nat → Nat → Stmt → Machine → Outcome
  | 0, _, _, m => .halted .outOfSteps m
  | steps + 1, depth, s, m =>
    match s with
    | .command v operands target =>
      match perform m.env v operands target with
      | .error h => .halted h m
      | .ok (env, drawn) => .done (m.after env drawn)
    | .ifThen condition block =>
      match condition.eval m.env with
      | .error f => .halted (.ofFault f) m
      | .ok v => if v.truthy then executeBlock steps depth block m else .done m
    | .whileDo condition block => executeLoop steps depth condition block m
    | .define name parameters body => .done (m.define name ⟨parameters, body⟩)
    | .call name arguments =>
      match enterCall m.env name arguments with
      | .error f => .halted (.ofFault f) m
      | .ok (scope, body) => (executeBlock steps depth body (m.pushScope scope)).popScope
    | .foreign shape => .halted (.ofFault (.misfit (.notStatement shape))) m
termination_by structural steps => steps

/-- Executes a block for as long as a condition holds. -/
def executeLoop : Nat → Nat → Expr → List Stmt → Machine → Outcome
  | 0, _, _, _, m => .halted .outOfSteps m
  | steps + 1, depth, condition, block, m =>
    match condition.eval m.env with
    | .error f => .halted (.ofFault f) m
    | .ok v =>
      if v.truthy then
        match executeBlock steps depth block m with
        | .halted h m₁ => .halted h m₁
        | .done m₁ => executeLoop steps depth condition block m₁
      else .done m
termination_by structural steps => steps

/-- Executes a block or a body, one level deeper. -/
def executeBlock : Nat → Nat → List Stmt → Machine → Outcome
  | 0, _, _, m => .halted .outOfSteps m
  | _ + 1, 0, _, m => .halted .tooDeep m
  | steps + 1, depth + 1, block, m => executeAll steps depth block m
termination_by structural steps => steps

/-- Executes statements one after the other, up to the first that fails. -/
def executeAll : Nat → Nat → List Stmt → Machine → Outcome
  | 0, _, _, m => .halted .outOfSteps m
  | _ + 1, _, [], m => .done m
  | steps + 1, depth, s :: rest, m =>
    match execute steps depth s m with
    | .halted h m₁ => .halted (h.inStatement s) m₁
    | .done m₁ => executeAll steps depth rest m₁
termination_by structural steps => steps

end

end TurtleGraphics
