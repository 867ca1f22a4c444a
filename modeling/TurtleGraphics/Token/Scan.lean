import TurtleGraphics.Text.Quoted
import TurtleGraphics.Text.Space
import TurtleGraphics.Token

/-!
# TurtleGraphics.Token.Scan

From the text of a script to its tokens, in one pass over the characters.

* `Mode`      : what the scanner is in the middle of.
* `begin?`    : what a character does where a token may start.
* `scan`      : all tokens of a text, or the first character that can start none.
* `unbalanced`: the bracket that spoils the balance of a list of tokens.
* `tokenize`  : the tokens of a script with balanced brackets.

A name runs as far as it can, to white space or a bracket. Brackets are looked at only after the
whole text has been split, so an unexpected character is reported before any of them.
-/

namespace TurtleGraphics

open TurtleGraphics.Text

/-- What the scanner is in the middle of. -/
inductive Mode where
  /-- Between two tokens. -/
  | gap
  /-- In a comment, which runs to the end of the line. -/
  | comment
  /-- In a name that starts at a place; its characters so far, the latest first. -/
  | name (kind : Token.Kind) (start : Place) (taken : List Char)
deriving Repr, DecidableEq

/-- A character that no token can start with. -/
structure Unexpected where
  char : Char
  place : Place
deriving Repr, DecidableEq

namespace Mode

/-- The token that ends with the text read so far. -/
def finish : Mode → List Lexeme
  | .gap => []
  | .comment => []
  | .name kind start taken => [⟨⟨kind, String.ofList taken.reverse⟩, start⟩]

end Mode

/-- Whether the next character continues a name. -/
def nameFollows : Option Char → Bool
  | some c => isNameChar c
  | none => false

/-- What a character does where a token may start: the token that it is, if it is one by itself,
and the mode after it. `next` is the character behind it. -/
def begin? (p : Place) (c : Char) (next : Option Char) : Option (List Lexeme × Mode) :=
  if isSkipped c then some ([], .gap)
  else if c = '[' then some ([⟨.opening, p⟩], .gap)
  else if c = ']' then some ([⟨.closing, p⟩], .gap)
  else if c = '"' then
    if nameFollows next then some ([], .name .quoted p []) else none
  else if c = ':' then
    if nameFollows next then some ([], .name .variable p []) else none
  else if isSpace c then none
  else if c = '/' ∧ next = some '/' then some ([], .comment)
  else some ([], .name .word p [c])

/-- What a character does in a mode: the tokens that end before it or with it, and the next
mode. -/
def Mode.step? (p : Place) (c : Char) (next : Option Char) : Mode → Option (List Lexeme × Mode)
  | .gap => begin? p c next
  | .comment => some ([], if c = '\n' then .gap else .comment)
  | .name kind start taken =>
    if isNameChar c then some ([], .name kind start (c :: taken))
    else
      match begin? p c next with
      | none => none
      | some (tokens, mode) => some (Mode.finish (.name kind start taken) ++ tokens, mode)

/-- The tokens of a text that starts at a place, read from a mode on. -/
def scan : Mode → Place → List Char → Except Unexpected (List Lexeme)
  | mode, _, [] => .ok mode.finish
  | mode, p, c :: cs =>
    match mode.step? p c cs.head? with
    | none => .error ⟨c, p⟩
    | some (tokens, next) =>
      match scan next (p.after c) cs with
      | .error e => .error e
      | .ok rest => .ok (tokens ++ rest)

/-- The tokens of a text, whatever its brackets. -/
def lexemes (script : String) : Except Unexpected (List Lexeme) :=
  scan .gap .start script.toList

/-- What a text that cannot be split into tokens does wrong. -/
inductive LexFault where
  | unexpected (char : Char)
  | unmatchedClose
  | unclosedOpen
deriving Repr, DecidableEq

/-- What is wrong with the tokens of a text, and where. -/
structure LexError where
  fault : LexFault
  place : Place
deriving Repr, DecidableEq

namespace LexFault

/-- The fault in words, without the place. -/
def message : LexFault → String
  | .unexpected c =>
    if isSigil c then "Expected a name after " ++ quoted (String.singleton c)
    else "Unexpected character " ++ quoted (String.singleton c)
  | .unmatchedClose => "Unmatched ']'"
  | .unclosedOpen => "Unclosed '['"

/-- The text at fault. -/
def text : LexFault → String
  | .unexpected c => String.singleton c
  | .unmatchedClose => "]"
  | .unclosedOpen => "["

end LexFault

/-- The fault in words, with the place. -/
def LexError.message (e : LexError) : String :=
  e.fault.message ++ " at line " ++ toString e.place.line ++ ", column " ++
    toString e.place.column

/-- The first closing bracket without an opening one, or else the innermost bracket left open;
`opened` holds the places of the brackets still open, the innermost first. -/
def unbalanced : List Place → List Lexeme → Option LexError
  | [], [] => none
  | p :: _, [] => some ⟨.unclosedOpen, p⟩
  | opened, l :: rest =>
    match l.token.kind with
    | .openBlock => unbalanced (l.place :: opened) rest
    | .closeBlock =>
      match opened with
      | [] => some ⟨.unmatchedClose, l.place⟩
      | _ :: outer => unbalanced outer rest
    | .word => unbalanced opened rest
    | .quoted => unbalanced opened rest
    | .variable => unbalanced opened rest

/-- The tokens of a script. -/
def tokenize (script : String) : Except LexError (List Lexeme) :=
  match lexemes script with
  | .error e => .error ⟨.unexpected e.char, e.place⟩
  | .ok ls =>
    match unbalanced [] ls with
    | some e => .error e
    | none => .ok ls

end TurtleGraphics
