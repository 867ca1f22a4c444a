import TurtleGraphics.Number.Printed

/-!
# TurtleGraphics.Value

The values of expressions: numbers and truth values, each of which can be read as the other.
-/

namespace TurtleGraphics

/-- A number or a truth value. -/
inductive Value where
  | number (x : Float)
  | truth (b : Bool)
deriving Repr, DecidableEq

namespace Value

/-- A value as a number; true is one and false is zero. -/
def toNumber : Value → Float
  | .number x => x
  | .truth true => 1.0
  | .truth false => 0.0

/-- A value as a truth value; every number but zero is true. -/
def truthy : Value → Bool
  | .number x => x != 0.0
  | .truth b => b

/-- A value in messages. -/
def text : Value → String
  | .number x => Number.text x
  | .truth true => "True"
  | .truth false => "False"

end Value

end TurtleGraphics
