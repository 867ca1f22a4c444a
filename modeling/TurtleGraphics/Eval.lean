import TurtleGraphics.Environment

/-!
# TurtleGraphics.Eval

The values of expressions. Both operands of an operator are evaluated, the left one first, also
where the left one alone would settle the result.

* `NumericOp.apply` : an operator on two numbers.
* `LogicOp.apply`   : an operator on two truth values.
* `Expr.eval`       : an expression in an environment.

The nesting of an expression is not counted against the depth of a run, although its evaluation
goes down level by level like that of blocks and bodies. Where the levels are limited in number, a
run may end with `Halt.tooDeep` in an expression that has a value here.
-/

namespace TurtleGraphics

/-- The result of an operator on two numbers. -/
def NumericOp.apply (l r : Float) : NumericOp → Except Fault Value
  | .add => .ok (.number (l + r))
  | .sub => .ok (.number (l - r))
  | .mul => .ok (.number (l * r))
  | .div => if r == 0.0 then .error .divisionByZero else .ok (.number (l / r))
  | .eq => .ok (.truth (l == r))
  | .ne => .ok (.truth (l != r))
  | .lt => .ok (.truth (decide (l < r)))
  | .gt => .ok (.truth (decide (r < l)))
  | .unknown w => .error (.unknownOperator w)

/-- The result of an operator on two truth values. -/
def LogicOp.apply (l r : Bool) : LogicOp → Except Fault Value
  | .and => .ok (.truth (l && r))
  | .or => .ok (.truth (l || r))
  | .unknown w => .error (.unknownOperator w)

/-- The value of an expression. -/
def Expr.eval (env : Environment) : Expr → Except Fault Value
  | .number x => .ok (.number x)
  | .boolean b => .ok (.truth b)
  | .variable name =>
    match env.lookup? (some name) with
    | some v => .ok v
    | none => .error (.undefinedVariable (some name))
  | .query q =>
    match env.turtle.query q with
    | .error f => .error f
    | .ok x => .ok (.number x)
  | .numeric op l r =>
    match l.eval env with
    | .error f => .error f
    | .ok a =>
      match r.eval env with
      | .error f => .error f
      | .ok b => op.apply a.toNumber b.toNumber
  | .logic op l r =>
    match l.eval env with
    | .error f => .error f
    | .ok a =>
      match r.eval env with
      | .error f => .error f
      | .ok b => op.apply a.truthy b.truthy
  | .negation e =>
    match e.eval env with
    | .error f => .error f
    | .ok a => .ok (.truth (!a.truthy))
  | .foreign s => .error (.misfit (.notExpression s))

/-- The values of expressions, one after the other. -/
def Expr.evalAll (env : Environment) : List Expr → Except Fault (List Value)
  | [] => .ok []
  | e :: rest =>
    match e.eval env with
    | .error f => .error f
    | .ok v =>
      match Expr.evalAll env rest with
      | .error f => .error f
      | .ok vs => .ok (v :: vs)

end TurtleGraphics
