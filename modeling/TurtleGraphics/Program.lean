import TurtleGraphics.Interpreter
import TurtleGraphics.Syntax.Parse
import TurtleGraphics.Token.Scan

/-!
# TurtleGraphics.Program

From the text of a script to what it draws.

* `ScriptError`   : the errors that are a script's own.
* `Ending`        : how the processing of a script ends.
* `Grammar`       : the grammar of the tokens, which is loaded once.
* `processScript` : the whole way, with a record of it.
* `runScript`     : the same, from the centre of a canvas.
-/

namespace TurtleGraphics

/-- The tokens of a list of lexemes. -/
def tokensOf (ls : List Lexeme) : List Token := ls.map Lexeme.token

/-- The errors that are a script's own. -/
inductive ScriptError where
  | lex (e : LexError)
  | parse (e : ParseError)
  | exec (e : ExecError)
deriving Repr

namespace ScriptError

/-- The kind of an error, under which it is reported. -/
def kind : ScriptError → String
  | .lex _ => "LexError"
  | .parse _ => "ParseError"
  | .exec e => e.fault.kind

/-- An error in words. -/
def message : ScriptError → String
  | .lex e => e.message
  | .parse e => e.message
  | .exec e => e.message

/-- The token or statement that an error is about. -/
def tokenText? : ScriptError → Option String
  | .lex e => some e.fault.text
  | .parse e => e.tokenText?
  | .exec e => e.context

end ScriptError

/-- What keeps a text from being a script. -/
inductive SourceFailure where
  | lex (e : LexError)
  | parse (failure : ParseFailure)
deriving Repr

/-- The script that a text spells. -/
def parseScript (limit : Nat) (text : String) : Except SourceFailure Script :=
  match tokenize text with
  | .error e => .error (.lex e)
  | .ok ls =>
    match (parse limit (tokensOf ls)).1 with
    | .error f => .error (.parse f)
    | .ok script => .ok script

/-- How the processing of a script ends. -/
inductive Ending where
  | success (primitives : List Primitive) (turtle : Turtle) (globals : Globals)
  | failure (e : ScriptError)
  /-- The parser failed, but not by an error of the script. -/
  | unparsed (f : ParseFailure)
  /-- The text is a script, but half of the size of its canvas is beyond all doubles. -/
  | oversized
  /-- The run ended early, but not by an error of the script. -/
  | unfinished (h : Halt)
deriving Repr

/-- The ending of the processing of a script, and what was recorded on the way. -/
structure Report where
  ending : Ending
  events : List Event
deriving Repr

namespace Report

/-- The report of an error of the script, recorded behind all other events. -/
def failed (e : ScriptError) (events : List Event) : Report :=
  ⟨.failure e, events ++ [.failed e.kind e.message]⟩

/-- The report of a run that is over. -/
def ofRun (events : List Event) : Interpreter × Option Halt → Report
  | (i, none) =>
    ⟨.success i.primitives i.env.turtle i.env.globals,
      events ++ i.machine.events.toList ++ [.produced i.primitives.length]⟩
  | (i, some (.error e)) => failed (.exec e) (events ++ i.machine.events.toList)
  | (i, some h) => ⟨.unfinished h, events ++ i.machine.events.toList⟩

end Report

/-- The events of a parse: each declaration, the first one first. -/
def declarationEvents (d : Declarations) : List Event :=
  d.reverse.map (fun entry => .declared entry.1 entry.2)

/-- The grammar of the tokens: where it is written down, and whether it has been loaded before. -/
structure Grammar where
  path : String
  loaded : Bool
deriving Repr, DecidableEq

/-- A grammar is loaded when the first text is scanned, and kept. -/
def Grammar.events (g : Grammar) : List Event :=
  if g.loaded then [] else [.loaded g.path]

/-- The events up to the end of a parse, be it a failure. -/
def readEvents (grammar : Grammar) (tokens : Nat) (d : Declarations) : List Event :=
  grammar.events ++ .tokenized tokens :: declarationEvents d

/-- Processes a script, with a turtle that is made when the script has been parsed, if it can be
made at all. -/
def processScript (limits : Limits) (grammar : Grammar) (text : String) (turtle? : Option Turtle) :
    Report :=
  match tokenize text with
  | .error e => .failed (.lex e) grammar.events
  | .ok ls =>
    match parse limits.depth (tokensOf ls) with
    | (.error (.error e), d) => .failed (.parse e) (readEvents grammar ls.length d)
    | (.error f, d) => ⟨.unparsed f, readEvents grammar ls.length d⟩
    | (.ok script, d) =>
      let events := readEvents grammar ls.length d ++
        [.parsed script.length d.signatures.entries.length]
      match turtle? with
      | none => ⟨.oversized, events⟩
      | some turtle => .ofRun events ((Interpreter.on (.fresh turtle)).run limits script)

namespace Turtle

/-- A turtle at a place, if both coordinates are there. -/
def startingAt? : Option Float → Option Float → Option Turtle
  | some x, some y => some (.startingAt x y)
  | _, _ => none

/-- The turtle at the centre of a canvas. -/
def centred? (width height : Int) : Option Turtle :=
  startingAt? (Number.half? width) (Number.half? height)

end Turtle

/-- Processes a script, with the turtle at the centre of a canvas of a given size. -/
def runScript (limits : Limits) (grammar : Grammar) (text : String) (width height : Int) :
    Report :=
  processScript limits grammar text (Turtle.centred? width height)

end TurtleGraphics
