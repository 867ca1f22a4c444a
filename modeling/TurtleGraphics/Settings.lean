import TurtleGraphics.Interpreter
import TurtleGraphics.Palette

/-!
# TurtleGraphics.Settings

The constants of the program.
-/

namespace TurtleGraphics.Settings

/-- The version of the program. -/
def version : String := "0.1.0"

/-- The width of the canvas, if none is given. -/
def canvasWidth : Nat := 500

/-- The height of the canvas, if none is given. -/
def canvasHeight : Nat := 500

/-- Where the grammar of the tokens is written down. -/
def grammarFile : String := "domains/logo/grammar.dsl"

/-- The bounds of a run: a depth that no ordinary script comes near, and steps without end for
all practical purposes. -/
def limits : Limits := ⟨1000, 1000000000000000⟩

end TurtleGraphics.Settings
