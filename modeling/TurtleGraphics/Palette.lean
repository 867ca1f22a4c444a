/-!
# TurtleGraphics.Palette

The colours of the pen are the indices of a palette.
-/

namespace TurtleGraphics

/-- The number of colours. -/
def paletteSize : Nat := 16

/-- The colour of a pen that was never set, which is white. -/
def defaultColor : Int := 7

end TurtleGraphics
