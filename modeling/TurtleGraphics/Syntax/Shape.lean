import TurtleGraphics.Number.Printed
import TurtleGraphics.Text.Quoted

/-!
# TurtleGraphics.Syntax.Shape

Trees without a guarantee that each part is of the sort its place asks for. A tree that was built
by hand may hold a statement where an expression belongs, or nothing at all; the language finds
that out only when it comes to that part, and then shows the part in full.

* `Tag`            : the kinds of node, with the labels of their parts.
* `Shape`          : a tree of nodes, lists and plain values.
* `Shape.describe` : a tree on one line.
-/

namespace TurtleGraphics

/-- The kinds of node. -/
inductive Tag where
  | number
  | boolean
  | variable
  | query
  | numeric
  | logic
  | negation
  | command
  | ifThen
  | whileDo
  | define
  | call
deriving Repr, DecidableEq

namespace Tag

/-- All kinds of node. -/
def all : List Tag :=
  [.number, .boolean, .variable, .query, .numeric, .logic, .negation, .command, .ifThen, .whileDo,
   .define, .call]

/-- The name of a kind of node. -/
def name : Tag → String
  | .number => "Number"
  | .boolean => "Boolean"
  | .variable => "Variable"
  | .query => "Query"
  | .numeric => "BinaryOp"
  | .logic => "BoolOp"
  | .negation => "Not"
  | .command => "Command"
  | .ifThen => "If"
  | .whileDo => "While"
  | .define => "ProcedureDefinition"
  | .call => "ProcedureCall"

/-- The labels of the parts of a node, in order. -/
def labels : Tag → List String
  | .number => ["value"]
  | .boolean => ["value"]
  | .variable => ["name"]
  | .query => ["kind"]
  | .numeric => ["op", "left", "right"]
  | .logic => ["op", "left", "right"]
  | .negation => ["operand"]
  | .command => ["kind", "operands", "target"]
  | .ifThen => ["condition", "block"]
  | .whileDo => ["condition", "block"]
  | .define => ["name", "parameters", "body"]
  | .call => ["name", "arguments"]

/-- The kind of node of a given name. -/
def ofName? (s : String) : Option Tag :=
  all.find? (fun t => t.name == s)

end Tag

/-- A tree whose parts may be of any sort. -/
inductive Shape where
  | nothing
  | text (s : String)
  | number (x : Float)
  | flag (b : Bool)
  | list (items : List Shape)
  | node (tag : Tag) (parts : List Shape)
deriving Repr

/-- Texts one after the other between brackets, with commas. -/
def enclosed (before : String) (items : List String) (after : String) : String :=
  before ++ ", ".intercalate items ++ after

mutual

/-- A tree on one line, each part of a node behind its label. -/
def Shape.describe : Shape → String
  | .nothing => "None"
  | .text s => Text.quoted s
  | .number x => Number.text x
  | .flag true => "True"
  | .flag false => "False"
  | .list items => enclosed "[" (Shape.describeAll items) "]"
  | .node tag parts =>
    enclosed (tag.name ++ "(")
      (List.zipWith (fun label part => label ++ "=" ++ part) tag.labels (Shape.describeAll parts))
      ")"

/-- Each tree of a list on one line. -/
def Shape.describeAll : List Shape → List String
  | [] => []
  | s :: rest => s.describe :: Shape.describeAll rest

end

end TurtleGraphics
