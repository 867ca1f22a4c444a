import TurtleGraphics.Syntax.Shape
import TurtleGraphics.Vocabulary

/-!
# TurtleGraphics.Syntax.Basic

Expressions and statements.

* `Expr`, `Stmt`             : the two sorts of node.
* `Expr.ofShape`, `toShape`  : from a tree of unknown shape and back, likewise for statements.
* `Expr.agrees`              : the same structure, with equal numbers in the same places.

A part that does not belong where it stands is kept as `foreign`.
-/

namespace TurtleGraphics

/-- Expressions. -/
inductive Expr where
  | number (value : Float)
  | boolean (value : Bool)
  | variable (name : String)
  | query (what : Query)
  | numeric (op : NumericOp) (left right : Expr)
  | logic (op : LogicOp) (left right : Expr)
  | negation (operand : Expr)
  | foreign (shape : Shape)
deriving Repr

/-- Statements. -/
inductive Stmt where
  | command (verb : Verb) (operands : List Expr) (target : Option String)
  | ifThen (condition : Expr) (block : List Stmt)
  | whileDo (condition : Expr) (block : List Stmt)
  | define (name : String) (parameters : List String) (body : List Stmt)
  | call (name : String) (arguments : List Expr)
  | foreign (shape : Shape)
deriving Repr

/-- A script as a tree. -/
abbrev Script := List Stmt

/-- A node or expression that stands where the other sort belongs, or is none at all. -/
inductive Misfit where
  | notExpression (shape : Shape)
  | notStatement (shape : Shape)
deriving Repr

/-- What is wrong with a misplaced part, in words. -/
def Misfit.message : Misfit → String
  | .notExpression s => "Not an expression: " ++ s.describe
  | .notStatement s => "Not a syntax node: " ++ s.describe

namespace Expr

/-- The expression that a tree stands for. -/
def ofShape : Shape → Expr
  | .node .number [.number x] => .number x
  | .node .boolean [.flag b] => .boolean b
  | .node .variable [.text name] => .variable name
  | .node .query [.text w] => .query (Query.ofWord w)
  | .node .numeric [.text w, l, r] => .numeric (NumericOp.ofWord w) (ofShape l) (ofShape r)
  | .node .logic [.text w, l, r] => .logic (LogicOp.ofWord w) (ofShape l) (ofShape r)
  | .node .negation [e] => .negation (ofShape e)
  | s => .foreign s

/-- The tree of an expression. -/
def toShape : Expr → Shape
  | .number x => .node .number [.number x]
  | .boolean b => .node .boolean [.flag b]
  | .variable name => .node .variable [.text name]
  | .query q => .node .query [.text q.word]
  | .numeric op l r => .node .numeric [.text op.word, l.toShape, r.toShape]
  | .logic op l r => .node .logic [.text op.word, l.toShape, r.toShape]
  | .negation e => .node .negation [e.toShape]
  | .foreign s => s

/-- Whether two expressions have the same structure with equal numbers. Zeros of either sign are
equal, and what is not a number equals nothing. -/
def agrees : Expr → Expr → Bool
  | .number x, .number y => x == y
  | .boolean a, .boolean b => a == b
  | .variable m, .variable n => m == n
  | .query p, .query q => p == q
  | .numeric o l r, .numeric o' l' r' => o == o' && l.agrees l' && r.agrees r'
  | .logic o l r, .logic o' l' r' => o == o' && l.agrees l' && r.agrees r'
  | .negation e, .negation e' => e.agrees e'
  | _, _ => false

/-- Whether two lists of expressions agree one by one. -/
def allAgree : List Expr → List Expr → Bool
  | [], [] => true
  | e :: es, f :: fs => e.agrees f && allAgree es fs
  | _, _ => false

end Expr

/-- The texts in a list of trees, if it holds nothing else. -/
def Shape.texts? : List Shape → Option (List String)
  | [] => some []
  | .text s :: rest => (Shape.texts? rest).map (s :: ·)
  | _ :: _ => none

mutual

/-- The statement that a tree stands for. -/
def Stmt.ofShape : Shape → Stmt
  | .node .command [.text w, .list operands, .text target] =>
    .command (Verb.ofWord w) (operands.map Expr.ofShape) (some target)
  | .node .command [.text w, .list operands, .nothing] =>
    .command (Verb.ofWord w) (operands.map Expr.ofShape) none
  | .node .ifThen [c, .list block] => .ifThen (Expr.ofShape c) (Stmt.ofShapes block)
  | .node .whileDo [c, .list block] => .whileDo (Expr.ofShape c) (Stmt.ofShapes block)
  | .node .define [.text name, .list parameters, .list body] =>
    match Shape.texts? parameters with
    | some ps => .define name ps (Stmt.ofShapes body)
    | none => .foreign (.node .define [.text name, .list parameters, .list body])
  | .node .call [.text name, .list arguments] => .call name (arguments.map Expr.ofShape)
  | s => .foreign s

/-- The statements that a list of trees stands for. -/
def Stmt.ofShapes : List Shape → List Stmt
  | [] => []
  | s :: rest => Stmt.ofShape s :: Stmt.ofShapes rest

end

mutual

/-- The tree of a statement. -/
def Stmt.toShape : Stmt → Shape
  | .command v operands target =>
    .node .command [.text v.word, .list (operands.map Expr.toShape),
      match target with
      | some name => .text name
      | none => .nothing]
  | .ifThen c block => .node .ifThen [c.toShape, .list (Stmt.toShapes block)]
  | .whileDo c block => .node .whileDo [c.toShape, .list (Stmt.toShapes block)]
  | .define name parameters body =>
    .node .define [.text name, .list (parameters.map .text), .list (Stmt.toShapes body)]
  | .call name arguments => .node .call [.text name, .list (arguments.map Expr.toShape)]
  | .foreign s => s

/-- The trees of a list of statements. -/
def Stmt.toShapes : List Stmt → List Shape
  | [] => []
  | s :: rest => s.toShape :: Stmt.toShapes rest

end

mutual

/-- Whether two statements have the same structure with equal numbers. -/
def Stmt.agrees : Stmt → Stmt → Bool
  | .command v es t, .command v' es' t' => v == v' && Expr.allAgree es es' && t == t'
  | .ifThen c b, .ifThen c' b' => c.agrees c' && Stmt.allAgree b b'
  | .whileDo c b, .whileDo c' b' => c.agrees c' && Stmt.allAgree b b'
  | .define n ps b, .define n' ps' b' => n == n' && ps == ps' && Stmt.allAgree b b'
  | .call n es, .call n' es' => n == n' && Expr.allAgree es es'
  | _, _ => false

/-- Whether two scripts agree statement by statement. -/
def Stmt.allAgree : List Stmt → List Stmt → Bool
  | [], [] => true
  | s :: ss, t :: ts => s.agrees t && Stmt.allAgree ss ts
  | _, _ => false

end

end TurtleGraphics
