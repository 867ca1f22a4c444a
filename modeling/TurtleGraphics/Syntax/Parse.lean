import TurtleGraphics.Syntax.ReadStmt

/-!
# TurtleGraphics.Syntax.Parse

Parsing whole lists of tokens and ranges of them. Here a failure is placed by the index of its
token in the list.

* `parseExpr`  : the expression at an index, and the index after it.
* `parseRange` : the statements between two indices.
* `parse`      : a whole script.

Each parse of statements also gives the procedures that were declared, whether it fails or not.
-/

namespace TurtleGraphics

/-- The expression at an index, and the index of the token after it. -/
def parseExpr (limit : Nat) (tokens : List Token) (start : Nat) :
    Except ParseFailure (Expr × Nat) :=
  match Expr.read limit (tokens.drop start) with
  | .error s => .error (s.locate tokens.length)
  | .ok (e, rest) => .ok (e, tokens.length - rest.length)

/-- The statements of the next `n` tokens, of the top level or of a block. -/
def readStatements (limit : Nat) (top : Bool) (n : Nat) (ts : List Token) :
    Except Stop (List Stmt × List Token) × Declarations :=
  if top then topSequence limit [] n ts
  else (sequence (Stmt.read [] limit) n ts, [])

/-- The statements from one index up to another, which the last statement has to reach exactly. -/
def parseRange (limit : Nat) (tokens : List Token) (start stop : Nat) (top : Bool) :
    Except ParseFailure (Script × Nat) × Declarations :=
  if start ≤ stop then
    match readStatements limit top (stop - start) (tokens.drop start) with
    | (.error s, declared) => (.error (s.locate tokens.length), declared)
    | (.ok (script, _), declared) => (.ok (script, stop), declared)
  else
    (.error (Stop.locate tokens.length (.fault .runsPastEnd (tokens.drop stop))), [])

/-- The script that a list of tokens spells. -/
def parse (limit : Nat) (tokens : List Token) : Except ParseFailure Script × Declarations :=
  match topSequence limit [] tokens.length tokens with
  | (.error s, declared) => (.error (s.locate tokens.length), declared)
  | (.ok (script, _), declared) => (.ok script, declared)

end TurtleGraphics
