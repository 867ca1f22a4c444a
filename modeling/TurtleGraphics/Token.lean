/-!
# TurtleGraphics.Token

The tokens of a script and where they stand.

* `Token`  : a word, a quoted word, a variable or a bracket.
* `Place`  : a line and a column, both counted from one.
* `Lexeme` : a token with the place where its spelling starts.
-/

namespace TurtleGraphics

/-- The kinds of token. -/
inductive Token.Kind where
  | word
  | quoted
  | variable
  | openBlock
  | closeBlock
deriving Repr, DecidableEq

/-- What stands in front of the text of a token of this kind. -/
def Token.Kind.sigil : Token.Kind → String
  | .word => ""
  | .quoted => "\""
  | .variable => ":"
  | .openBlock => ""
  | .closeBlock => ""

/-- A token, its text without the sigil. -/
structure Token where
  kind : Token.Kind
  text : String
deriving Repr, DecidableEq

namespace Token

/-- The token as it is spelled in a script. -/
def raw (t : Token) : String :=
  t.kind.sigil ++ t.text

/-- A word as a token. -/
def ofWord (w : String) : Token := ⟨.word, w⟩

/-- A quoted name or literal as a token. -/
def ofQuoted (s : String) : Token := ⟨.quoted, s⟩

/-- The token that opens a block. -/
def opening : Token := ⟨.openBlock, "["⟩

/-- The token that closes a block. -/
def closing : Token := ⟨.closeBlock, "]"⟩

end Token

/-- A position in a text; lines and columns count from one. -/
structure Place where
  line : Nat
  column : Nat
deriving Repr, DecidableEq

namespace Place

/-- Where a text starts. -/
def start : Place := ⟨1, 1⟩

/-- The place behind a character; a line ends at a line feed and nowhere else. -/
def after (p : Place) (c : Char) : Place :=
  if c = '\n' then ⟨p.line + 1, 1⟩ else ⟨p.line, p.column + 1⟩

end Place

/-- A token of a text, with the place where its spelling starts. -/
structure Lexeme where
  token : Token
  place : Place
deriving Repr, DecidableEq

end TurtleGraphics
