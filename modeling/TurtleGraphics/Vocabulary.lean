/-!
# TurtleGraphics.Vocabulary

The words that the language knows, each with what it does.

* `Verb`, `Query`, `NumericOp`, `LogicOp` : commands, queries of the turtle and operators.
* `Keyword`    : what a word of the vocabulary does.
* `vocabulary` : the table of all reserved words; every other question is answered from it.

Each kind of word has a case `unknown` for a tree that was built by hand and names a word that
the language does not know; the parser never makes one.
-/

namespace TurtleGraphics

/-- The commands. -/
inductive Verb where
  | penUp
  | penDown
  | forward
  | back
  | left
  | right
  | turn
  | setHeading
  | setX
  | setY
  | setPenColor
  | make
  | addAssign
  | unknown (word : String)
deriving Repr, DecidableEq

/-- What an expression can ask the turtle. -/
inductive Query where
  | xcor
  | ycor
  | heading
  | color
  | unknown (word : String)
deriving Repr, DecidableEq

/-- The operators on two numbers. -/
inductive NumericOp where
  | add
  | sub
  | mul
  | div
  | eq
  | ne
  | lt
  | gt
  | unknown (word : String)
deriving Repr, DecidableEq

/-- The operators on two truth values. -/
inductive LogicOp where
  | and
  | or
  | unknown (word : String)
deriving Repr, DecidableEq

/-- What a reserved word does. -/
inductive Keyword where
  | command (verb : Verb)
  | ifThen
  | whileDo
  | procedureStart
  | procedureEnd
  | query (what : Query)
  | numeric (op : NumericOp)
  | logic (op : LogicOp)
  | negation
deriving Repr, DecidableEq

/-- The reserved words. -/
def vocabulary : List (String × Keyword) :=
  [("PENUP", .command .penUp), ("PENDOWN", .command .penDown), ("FORWARD", .command .forward),
   ("BACK", .command .back), ("LEFT", .command .left), ("RIGHT", .command .right),
   ("TURN", .command .turn), ("SETHEADING", .command .setHeading), ("SETX", .command .setX),
   ("SETY", .command .setY), ("SETPENCOLOR", .command .setPenColor), ("MAKE", .command .make),
   ("ADDASSIGN", .command .addAssign), ("IF", .ifThen), ("WHILE", .whileDo),
   ("TO", .procedureStart), ("END", .procedureEnd), ("XCOR", .query .xcor),
   ("YCOR", .query .ycor), ("HEADING", .query .heading), ("COLOR", .query .color),
   ("+", .numeric .add), ("-", .numeric .sub), ("*", .numeric .mul), ("/", .numeric .div),
   ("EQ", .numeric .eq), ("NE", .numeric .ne), ("LT", .numeric .lt), ("GT", .numeric .gt),
   ("AND", .logic .and), ("OR", .logic .or), ("NOT", .negation)]

/-- What a word does, if it is reserved. -/
def Keyword.of? (word : String) : Option Keyword :=
  vocabulary.lookup word

/-- Whether the language keeps a word for itself. -/
def isReserved (word : String) : Bool :=
  (Keyword.of? word).isSome

namespace Verb

/-- The word for a command. -/
def word : Verb → String
  | .penUp => "PENUP"
  | .penDown => "PENDOWN"
  | .forward => "FORWARD"
  | .back => "BACK"
  | .left => "LEFT"
  | .right => "RIGHT"
  | .turn => "TURN"
  | .setHeading => "SETHEADING"
  | .setX => "SETX"
  | .setY => "SETY"
  | .setPenColor => "SETPENCOLOR"
  | .make => "MAKE"
  | .addAssign => "ADDASSIGN"
  | .unknown w => w

/-- The command that a word names. -/
def ofWord (w : String) : Verb :=
  match Keyword.of? w with
  | some (.command v) => v
  | _ => .unknown w

/-- Whether a command is followed by the quoted name of a variable. -/
def takesName : Verb → Bool
  | .make => true
  | .addAssign => true
  | _ => false

/-- How many expressions follow a command, after the name if it takes one. -/
def arity : Verb → Nat
  | .penUp => 0
  | .penDown => 0
  | .unknown _ => 0
  | _ => 1

end Verb

namespace Query

/-- The word for a query. -/
def word : Query → String
  | .xcor => "XCOR"
  | .ycor => "YCOR"
  | .heading => "HEADING"
  | .color => "COLOR"
  | .unknown w => w

/-- The query that a word names. -/
def ofWord (w : String) : Query :=
  match Keyword.of? w with
  | some (.query q) => q
  | _ => .unknown w

end Query

namespace NumericOp

/-- The word for an operator on numbers. -/
def word : NumericOp → String
  | .add => "+"
  | .sub => "-"
  | .mul => "*"
  | .div => "/"
  | .eq => "EQ"
  | .ne => "NE"
  | .lt => "LT"
  | .gt => "GT"
  | .unknown w => w

/-- The operator on numbers that a word names. -/
def ofWord (w : String) : NumericOp :=
  match Keyword.of? w with
  | some (.numeric op) => op
  | _ => .unknown w

end NumericOp

namespace LogicOp

/-- The word for an operator on truth values. -/
def word : LogicOp → String
  | .and => "AND"
  | .or => "OR"
  | .unknown w => w

/-- The operator on truth values that a word names. -/
def ofWord (w : String) : LogicOp :=
  match Keyword.of? w with
  | some (.logic op) => op
  | _ => .unknown w

end LogicOp

/-- The word for negation. -/
def negationWord : String := "NOT"

/-- The commands that are followed by expressions alone, with the number of expressions. -/
def arities : List (String × Nat) :=
  vocabulary.filterMap fun entry =>
    match entry.2 with
    | .command v => if v.takesName then none else some (entry.1, v.arity)
    | _ => none

/-- The reserved words in alphabetical order. -/
def reservedWords : List String :=
  (vocabulary.map Prod.fst).mergeSort (fun a b => decide (a ≤ b))

/-- The word that a keyword is listed under. -/
def Keyword.word : Keyword → String
  | .command v => v.word
  | .ifThen => "IF"
  | .whileDo => "WHILE"
  | .procedureStart => "TO"
  | .procedureEnd => "END"
  | .query q => q.word
  | .numeric op => op.word
  | .logic op => op.word
  | .negation => negationWord

theorem mem_of_lookup_eq_some {word : String} {k : Keyword} {table : List (String × Keyword)}
    (h : table.lookup word = some k) : (word, k) ∈ table := by
  induction table with
  | nil => simp at h
  | cons e rest ih =>
    obtain ⟨w, kw⟩ := e
    rw [List.lookup_cons] at h
    split at h
    · rename_i hw
      cases h
      simp [beq_iff_eq.mp hw]
    · exact List.mem_cons_of_mem _ (ih h)

/-- A word that is listed is the word of its keyword. -/
theorem Keyword.word_of?_eq {word : String} {k : Keyword} (h : Keyword.of? word = some k) :
    k.word = word := by
  have all : ∀ e ∈ vocabulary, e.2.word = e.1 := by decide
  exact all (word, k) (mem_of_lookup_eq_some h)

theorem Verb.word_ofWord (w : String) : (Verb.ofWord w).word = w := by
  unfold Verb.ofWord
  split
  · rename_i h; exact Keyword.word_of?_eq h
  · rfl

theorem Query.word_ofWord (w : String) : (Query.ofWord w).word = w := by
  unfold Query.ofWord
  split
  · rename_i h; exact Keyword.word_of?_eq h
  · rfl

theorem NumericOp.word_ofWord (w : String) : (NumericOp.ofWord w).word = w := by
  unfold NumericOp.ofWord
  split
  · rename_i h; exact Keyword.word_of?_eq h
  · rfl

theorem LogicOp.word_ofWord (w : String) : (LogicOp.ofWord w).word = w := by
  unfold LogicOp.ofWord
  split
  · rename_i h; exact Keyword.word_of?_eq h
  · rfl

end TurtleGraphics
