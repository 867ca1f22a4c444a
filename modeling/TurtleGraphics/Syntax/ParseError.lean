import TurtleGraphics.Token
import TurtleGraphics.Text.Quoted
import TurtleGraphics.Vocabulary

/-!
# TurtleGraphics.Syntax.ParseError

Why reading a list of tokens stops early.

* `ParseFault` : what is wrong with the tokens.
* `Stop`       : a reader's failure, with the tokens from the one at fault on.
* `ParseError` : a fault with the index of its token in the whole list.
* `ParseFailure` : how a parse of a whole list can fail.
-/

namespace TurtleGraphics

/-- What is wrong with the tokens of a script. -/
inductive ParseFault where
  | unexpectedClose
  | expectedCommand
  | expectedVariableName (verb : Verb)
  | nestedDefinition
  | strayEnd
  | unknownCommand
  | expectedBlock
  | unterminatedBlock
  | expectedProcedureName
  | reservedName (name : String)
  | duplicateParameter (parameter procedure : String)
  | missingEnd (procedure : String)
  | runsPastEnd
  | expectedExpression
  | notNumeral (literal : String)
  | notFinite (literal : String)
deriving Repr, DecidableEq

/-- A fault in words, without the token. -/
def ParseFault.message : ParseFault → String
  | .unexpectedClose => "Unexpected ']'"
  | .expectedCommand => "Expected a command"
  | .expectedVariableName v => v.word ++ " expects a quoted variable name"
  | .nestedDefinition => "Procedures can only be defined at the top level"
  | .strayEnd => "END without a matching TO"
  | .unknownCommand => "Unknown command or undefined procedure"
  | .expectedBlock => "Expected '[' to start a block"
  | .unterminatedBlock => "Unterminated block"
  | .expectedProcedureName => "TO expects a procedure name"
  | .reservedName name => Text.quoted name ++ " is reserved and cannot name a procedure"
  | .duplicateParameter parameter procedure =>
    "Duplicate parameter " ++ Text.quoted parameter ++ " in procedure " ++ Text.quoted procedure
  | .missingEnd procedure => "Procedure " ++ Text.quoted procedure ++ " has no END"
  | .runsPastEnd => "Statement runs past the end of its block"
  | .expectedExpression => "Expected an expression"
  | .notNumeral literal => "Cannot parse " ++ Text.quoted literal ++ " as a number"
  | .notFinite literal => Text.quoted literal ++ " is not a finite number"

/-- Why a reader stops. -/
inductive Stop where
  /-- The tokens are wrong; `rest` starts with the token at fault and is empty at the end. -/
  | fault (why : ParseFault) (rest : List Token)
  /-- A range of tokens goes beyond the end of the list. -/
  | beyondEnd
  /-- The nesting is deeper than the limit. -/
  | tooDeep
deriving Repr, DecidableEq

/-- A fault with its token, which is missing at the end of the script. -/
structure ParseError where
  fault : ParseFault
  found : Option (Nat × Token)
deriving Repr, DecidableEq

namespace ParseError

/-- A fault in words, with its token. -/
def message (e : ParseError) : String :=
  match e.found with
  | some (index, t) =>
    e.fault.message ++ " (token " ++ toString index ++ ": " ++ Text.quoted t.raw ++ ")"
  | none => e.fault.message ++ " (at end of script)"

/-- The index of the token at fault. -/
def index? (e : ParseError) : Option Nat := e.found.map Prod.fst

/-- The spelling of the token at fault. -/
def tokenText? (e : ParseError) : Option String := e.found.map (fun f => f.2.raw)

end ParseError

/-- How a parse of a list of tokens can fail. -/
inductive ParseFailure where
  | error (e : ParseError)
  | beyondEnd
  | tooDeep
deriving Repr, DecidableEq

/-- The failure of a reader, placed in a list of `total` tokens. -/
def Stop.locate (total : Nat) : Stop → ParseFailure
  | .fault why [] => .error ⟨why, none⟩
  | .fault why (t :: rest) => .error ⟨why, some (total - (rest.length + 1), t)⟩
  | .beyondEnd => .beyondEnd
  | .tooDeep => .tooDeep

end TurtleGraphics
