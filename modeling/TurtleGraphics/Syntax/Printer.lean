import TurtleGraphics.Syntax.Basic
import TurtleGraphics.Token

/-!
# TurtleGraphics.Syntax.Printer

Trees written as script text. A tree is first laid out as tokens, one line for each statement and
each end of a block, and the text follows from the tokens: one space between two tokens of a line,
two more spaces of indent for each level of nesting.

* `Expr.tokens`   : an expression, operators in front of their operands.
* `Stmt.header`   : a statement without the contents of its block.
* `Stmt.lines`    : a statement with its block.
* `Script.source` : a whole script.

Printing fails only at a misplaced part; the first one met is reported.
-/

namespace TurtleGraphics

namespace Expr

/-- The tokens of an expression. -/
def tokens : Expr → Except Misfit (List Token)
  | .number x => .ok [.ofQuoted (Number.text x)]
  | .boolean true => .ok [.ofQuoted "TRUE"]
  | .boolean false => .ok [.ofQuoted "FALSE"]
  | .variable name => .ok [⟨.variable, name⟩]
  | .query q => .ok [.ofWord q.word]
  | .numeric op l r =>
    match l.tokens with
    | .error m => .error m
    | .ok ls =>
      match r.tokens with
      | .error m => .error m
      | .ok rs => .ok (.ofWord op.word :: ls ++ rs)
  | .logic op l r =>
    match l.tokens with
    | .error m => .error m
    | .ok ls =>
      match r.tokens with
      | .error m => .error m
      | .ok rs => .ok (.ofWord op.word :: ls ++ rs)
  | .negation e =>
    match e.tokens with
    | .error m => .error m
    | .ok ts => .ok (.ofWord negationWord :: ts)
  | .foreign s => .error (.notExpression s)

/-- The tokens of expressions that follow one another. -/
def allTokens : List Expr → Except Misfit (List Token)
  | [] => .ok []
  | e :: rest =>
    match e.tokens with
    | .error m => .error m
    | .ok ts =>
      match allTokens rest with
      | .error m => .error m
      | .ok us => .ok (ts ++ us)

end Expr

/-- Tokens on one line, a space between every two. -/
def spaced (ts : List Token) : String :=
  " ".intercalate (ts.map Token.raw)

/-- An expression as text. -/
def Expr.source (e : Expr) : Except Misfit String :=
  match e.tokens with
  | .error m => .error m
  | .ok ts => .ok (spaced ts)

namespace Stmt

/-- The tokens of a statement up to its block. -/
def header : Stmt → Except Misfit (List Token)
  | .command v operands target =>
    match Expr.allTokens operands with
    | .error m => .error m
    | .ok ts =>
      match target with
      | some name => .ok (.ofWord v.word :: .ofQuoted name :: ts)
      | none => .ok (.ofWord v.word :: ts)
  | .ifThen c _ =>
    match c.tokens with
    | .error m => .error m
    | .ok ts => .ok (.ofWord Keyword.ifThen.word :: ts)
  | .whileDo c _ =>
    match c.tokens with
    | .error m => .error m
    | .ok ts => .ok (.ofWord Keyword.whileDo.word :: ts)
  | .define name parameters _ =>
    .ok (.ofWord Keyword.procedureStart.word :: .ofWord name :: parameters.map .ofQuoted)
  | .call name arguments =>
    match Expr.allTokens arguments with
    | .error m => .error m
    | .ok ts => .ok (.ofWord name :: ts)
  | .foreign s => .error (.notStatement s)

/-- One line for a statement, without the contents of its block. -/
def summary (s : Stmt) : Except Misfit String :=
  match s.header with
  | .error m => .error m
  | .ok ts => .ok (spaced ts)

end Stmt

/-- A line of a printed script: how deep it is nested, and its tokens. -/
structure Line where
  depth : Nat
  tokens : List Token
deriving Repr, DecidableEq

/-- A line as text, two spaces of indent for each level. -/
def Line.text (l : Line) : String :=
  String.ofList (List.replicate (2 * l.depth) ' ') ++ spaced l.tokens

mutual

/-- The lines of a statement at a depth. -/
def Stmt.lines (depth : Nat) : Stmt → Except Misfit (List Line)
  | .ifThen c block =>
    match (Stmt.ifThen c block).header with
    | .error m => .error m
    | .ok ts =>
      match Stmt.allLines (depth + 1) block with
      | .error m => .error m
      | .ok inner => .ok (⟨depth, ts ++ [.opening]⟩ :: inner ++ [⟨depth, [.closing]⟩])
  | .whileDo c block =>
    match (Stmt.whileDo c block).header with
    | .error m => .error m
    | .ok ts =>
      match Stmt.allLines (depth + 1) block with
      | .error m => .error m
      | .ok inner => .ok (⟨depth, ts ++ [.opening]⟩ :: inner ++ [⟨depth, [.closing]⟩])
  | .define name parameters body =>
    match (Stmt.define name parameters body).header with
    | .error m => .error m
    | .ok ts =>
      match Stmt.allLines (depth + 1) body with
      | .error m => .error m
      | .ok inner => .ok (⟨depth, ts⟩ :: inner ++ [⟨depth, [.ofWord Keyword.procedureEnd.word]⟩])
  | s =>
    match s.header with
    | .error m => .error m
    | .ok ts => .ok [⟨depth, ts⟩]

/-- The lines of statements that follow one another at a depth. -/
def Stmt.allLines (depth : Nat) : List Stmt → Except Misfit (List Line)
  | [] => .ok []
  | s :: rest =>
    match s.lines depth with
    | .error m => .error m
    | .ok ls =>
      match Stmt.allLines depth rest with
      | .error m => .error m
      | .ok more => .ok (ls ++ more)

end

/-- The text of a script, every line ended by a line feed. -/
def Script.source (script : Script) : Except Misfit String :=
  match Stmt.allLines 0 script with
  | .error m => .error m
  | .ok ls => .ok (String.join (ls.map (fun l => l.text ++ "\n")))

end TurtleGraphics
