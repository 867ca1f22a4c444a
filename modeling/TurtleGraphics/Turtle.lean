import TurtleGraphics.Fault
import TurtleGraphics.Palette

/-!
# TurtleGraphics.Turtle

The turtle: where it is, where it looks and what its pen does. The y axis points down, heading
zero points up, and angles grow clockwise, in degrees.

* `Turtle.move`  : walks along the heading.
* `Turtle.query` : what a script can ask.
* `colorIndex`   : a value as a colour of the palette.
-/

namespace TurtleGraphics

/-- The pose of the turtle and its pen. -/
structure Turtle where
  x : Float
  y : Float
  heading : Float
  penDown : Bool
  color : Int
deriving Repr, DecidableEq

namespace Turtle

/-- A turtle at a place, looking up with its pen lifted. -/
def startingAt (x y : Float) : Turtle := ⟨x, y, 0.0, false, defaultColor⟩

/-- The ratio of a half circle to its diameter, as a double. -/
def pi : Float := 3.141592653589793

/-- An angle in degrees as an angle in radians. -/
def radians (degrees : Float) : Float := degrees * (pi / 180.0)

/-- Walks a distance in the direction of the heading turned by an offset. There is no direction
when the angle is infinite; one that is not a number leads to coordinates that are not either. -/
def move (t : Turtle) (distance offset : Float) : Option Turtle :=
  let angle := radians (t.heading + offset)
  if angle.isInf then none
  else some { t with
    x := t.x + distance * Float.sin angle
    y := t.y - distance * Float.cos angle }

/-- Turns the turtle where it stands. -/
def turn (t : Turtle) (degrees : Float) : Turtle :=
  { t with heading := t.heading + degrees }

/-- What a script can ask the turtle. -/
def query (t : Turtle) : Query → Except Fault Float
  | .xcor => .ok t.x
  | .ycor => .ok t.y
  | .heading => .ok t.heading
  | .color => .ok (Float.ofInt t.color)
  | .unknown w => .error (.unknownQuery w)

end Turtle

/-- A value as the index of a colour. -/
def colorIndex : Value → Except Fault Int
  | .truth b => .error (.colorNotWhole (.truth b))
  | .number x =>
    match Number.whole? x with
    | none => .error (.colorNotWhole (.number x))
    | some n =>
      if 0 ≤ n ∧ n < Int.ofNat paletteSize then .ok n
      else .error (.colorOutOfRange (.number x))

end TurtleGraphics
