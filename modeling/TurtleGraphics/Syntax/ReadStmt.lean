import TurtleGraphics.Bindings
import TurtleGraphics.Syntax.ReadExpr

/-!
# TurtleGraphics.Syntax.ReadStmt

Reading statements off the front of a list of tokens.

* `Declarations`   : the procedures declared so far, with their numbers of parameters.
* `closingOffset?` : how far it is to the bracket that closes a block.
* `sequence`       : statements that fill a range of tokens exactly.
* `Stmt.read`      : one statement of a block.
* `Stmt.readTop`   : one statement of the top level, where procedures may be defined.
* `topSequence`    : statements of the top level that fill a range exactly.

A reader gets all tokens from where it stands to the end of the script. The extent of a block is
found by matching brackets and that of a body by the first `END`; the statements inside then have
to end exactly there.
-/

namespace TurtleGraphics

/-- The procedures declared so far, the latest first. A name may be declared more than once. -/
abbrev Declarations := List (String × Nat)

namespace Declarations

/-- The number of parameters in the latest declaration of a name. -/
def arity? (d : Declarations) (name : String) : Option Nat :=
  d.lookup name

/-- The declarations in force, by name. -/
def signatures (d : Declarations) : Bindings String Nat :=
  Bindings.ofList d.reverse

end Declarations

/-- How many tokens come before the bracket that closes a block, inside of which `depth` other
blocks are open. -/
def closingOffset? : Nat → List Token → Option Nat
  | _, [] => none
  | depth, t :: rest =>
    match t.kind with
    | .openBlock => (closingOffset? (depth + 1) rest).map (· + 1)
    | .closeBlock =>
      match depth with
      | 0 => some 0
      | outer + 1 => (closingOffset? outer rest).map (· + 1)
    | .word => (closingOffset? depth rest).map (· + 1)
    | .quoted => (closingOffset? depth rest).map (· + 1)
    | .variable => (closingOffset? depth rest).map (· + 1)

/-- Reads statements from the next `n` tokens, which the last of them has to use up exactly. -/
def sequence (one : List Token → Except Stop (Stmt × List Token)) :
    Nat → List Token → Except Stop (List Stmt × List Token)
  | 0, ts => .ok ([], ts)
  | _ + 1, [] => .error .beyondEnd
  | n + 1, t :: rest =>
    match one (t :: rest) with
    | .error s => .error s
    | .ok (s, rest₁) =>
      let more := rest.length - rest₁.length
      if more ≤ n then
        match sequence one (n - more) rest₁ with
        | .error e => .error e
        | .ok (ss, rest₂) => .ok (s :: ss, rest₂)
      else .error (.fault .runsPastEnd (rest.drop n))
termination_by n => n
decreasing_by omega

/-- Reads a block: an opening bracket, statements, and the closing bracket that matches. -/
def readBlock (one : List Token → Except Stop (Stmt × List Token)) :
    List Token → Except Stop (List Stmt × List Token)
  | [] => .error (.fault .expectedBlock [])
  | t :: rest =>
    if t.kind = .openBlock then
      match closingOffset? 0 rest with
      | none => .error (.fault .unterminatedBlock (t :: rest))
      | some n =>
        match sequence one n rest with
        | .error s => .error s
        | .ok (block, rest₁) => .ok (block, rest₁.drop 1)
    else .error (.fault .expectedBlock (t :: rest))

/-- Reads a condition and the block that depends on it. -/
def readGuarded (limit : Nat) (one : List Token → Except Stop (Stmt × List Token))
    (ts : List Token) : Except Stop (Expr × List Stmt × List Token) :=
  match Expr.read limit ts with
  | .error s => .error s
  | .ok (condition, rest) =>
    match readBlock one rest with
    | .error s => .error s
    | .ok (block, rest₁) => .ok (condition, block, rest₁)

/-- Reads what follows a command: the quoted name if it takes one, and its operands. -/
def readCommand (limit : Nat) (v : Verb) (ts : List Token) : Except Stop (Stmt × List Token) :=
  if v.takesName then
    match ts with
    | [] => .error (.fault (.expectedVariableName v) [])
    | t :: rest =>
      if t.kind = .quoted then
        match Expr.readMany limit v.arity rest with
        | .error s => .error s
        | .ok (operands, rest₁) => .ok (.command v operands (some t.text), rest₁)
      else .error (.fault (.expectedVariableName v) (t :: rest))
  else
    match Expr.readMany limit v.arity ts with
    | .error s => .error s
    | .ok (operands, rest) => .ok (.command v operands none, rest)

/-- Reads one statement, in a block or a body. -/
def Stmt.read (declared : Declarations) : Nat → List Token → Except Stop (Stmt × List Token)
  | 0, _ => .error .tooDeep
  | _ + 1, [] => .error .beyondEnd
  | limit + 1, t :: rest =>
    match t.kind with
    | .closeBlock => .error (.fault .unexpectedClose (t :: rest))
    | .word =>
      match Keyword.of? t.text with
      | some (.command v) => readCommand limit v rest
      | some .ifThen =>
        match readGuarded limit (Stmt.read declared limit) rest with
        | .error s => .error s
        | .ok (condition, block, rest₁) => .ok (.ifThen condition block, rest₁)
      | some .whileDo =>
        match readGuarded limit (Stmt.read declared limit) rest with
        | .error s => .error s
        | .ok (condition, block, rest₁) => .ok (.whileDo condition block, rest₁)
      | some .procedureStart => .error (.fault .nestedDefinition (t :: rest))
      | some .procedureEnd => .error (.fault .strayEnd (t :: rest))
      | _ =>
        match declared.arity? t.text with
        | some count =>
          match Expr.readMany limit count rest with
          | .error s => .error s
          | .ok (arguments, rest₁) => .ok (.call t.text arguments, rest₁)
        | none => .error (.fault .unknownCommand (t :: rest))
    | .quoted => .error (.fault .expectedCommand (t :: rest))
    | .variable => .error (.fault .expectedCommand (t :: rest))
    | .openBlock => .error (.fault .expectedCommand (t :: rest))

/-- Whether a token is one of the parameters of a procedure that is being declared: quoted, or a
word that is neither reserved nor the name of a procedure. -/
def isParameter (declared : Declarations) (procedure : String) (t : Token) : Bool :=
  match t.kind with
  | .quoted => true
  | .word =>
    t.text != procedure && !isReserved t.text && (declared.arity? t.text).isNone
  | .variable => false
  | .openBlock => false
  | .closeBlock => false

/-- Reads parameters as far as they go; those read so far are given latest first. -/
def readParameters (declared : Declarations) (procedure : String) :
    List String → List Token → Except Stop (List String × List Token)
  | taken, [] => .ok (taken.reverse, [])
  | taken, t :: rest =>
    if isParameter declared procedure t then
      if taken.contains t.text then
        .error (.fault (.duplicateParameter t.text procedure) (t :: rest))
      else readParameters declared procedure (t.text :: taken) rest
    else .ok (taken.reverse, t :: rest)

/-- Whether a token ends the body of a procedure. -/
def isEnd (t : Token) : Bool :=
  t.kind == .word && Keyword.of? t.text == some .procedureEnd

/-- What stands before the body of a procedure, the length of the body, and the tokens from the
body on. -/
structure Heading where
  name : String
  parameters : List String
  bodyLength : Nat
  rest : List Token
deriving Repr, DecidableEq

/-- Reads the heading of a procedure, behind its `TO`. -/
def readHeading (declared : Declarations) : List Token → Except Stop Heading
  | [] => .error (.fault .expectedProcedureName [])
  | t :: rest =>
    if t.kind = .word then
      if isReserved t.text then .error (.fault (.reservedName t.text) (t :: rest))
      else
        match readParameters declared t.text [] rest with
        | .error s => .error s
        | .ok (parameters, rest₁) =>
          match rest₁.findIdx? isEnd with
          | none => .error (.fault (.missingEnd t.text) (t :: rest))
          | some n => .ok ⟨t.text, parameters, n, rest₁⟩
    else .error (.fault .expectedProcedureName (t :: rest))

/-- Reads a procedure, behind its `TO`. The procedure is declared before its body is read, so that
it can call itself, and stays declared if the body cannot be read. -/
def readDefinition (limit : Nat) (declared : Declarations) (ts : List Token) :
    Except Stop (Stmt × List Token) × Declarations :=
  match readHeading declared ts with
  | .error s => (.error s, declared)
  | .ok h =>
    let declared₁ := (h.name, h.parameters.length) :: declared
    match sequence (Stmt.read declared₁ limit) h.bodyLength h.rest with
    | .error s => (.error s, declared₁)
    | .ok (body, rest) => (.ok (.define h.name h.parameters body, rest.drop 1), declared₁)

/-- Reads one statement of the top level. -/
def Stmt.readTop (limit : Nat) (declared : Declarations) :
    List Token → Except Stop (Stmt × List Token) × Declarations
  | [] => (.error .beyondEnd, declared)
  | t :: rest =>
    if t.kind = .word ∧ Keyword.of? t.text = some .procedureStart then
      readDefinition limit declared rest
    else (Stmt.read declared limit (t :: rest), declared)

/-- Reads statements of the top level from the next `n` tokens, which the last of them has to use
up exactly. The declarations are those made so far, also if the reading fails. -/
def topSequence (limit : Nat) :
    Declarations → Nat → List Token → Except Stop (List Stmt × List Token) × Declarations
  | declared, 0, ts => (.ok ([], ts), declared)
  | declared, _ + 1, [] => (.error .beyondEnd, declared)
  | declared, n + 1, t :: rest =>
    match Stmt.readTop limit declared (t :: rest) with
    | (.error s, declared₁) => (.error s, declared₁)
    | (.ok (s, rest₁), declared₁) =>
      let more := rest.length - rest₁.length
      if more ≤ n then
        match topSequence limit declared₁ (n - more) rest₁ with
        | (.error e, declared₂) => (.error e, declared₂)
        | (.ok (ss, rest₂), declared₂) => (.ok (s :: ss, rest₂), declared₂)
      else (.error (.fault .runsPastEnd (rest.drop n)), declared₁)
termination_by _ n => n
decreasing_by omega

end TurtleGraphics
