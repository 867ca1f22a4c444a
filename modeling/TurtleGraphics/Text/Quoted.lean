import TurtleGraphics.Text.Printable

/-!
# TurtleGraphics.Text.Quoted

Text as it is quoted in messages: between single quotes, or between double quotes if the text
holds a single quote and no double one. The backslash, the quote in use and the unprintable
characters are escaped.

* `hexDigits` : a number in lower-case hexadecimal, padded to a width.
* `escape`    : one character inside a pair of quotes.
* `quoted`    : a whole text.
-/

namespace TurtleGraphics.Text

/-- The hexadecimal digits of `n`, with zeros in front up to the given width. -/
def hexDigits (width n : Nat) : List Char :=
  let digits := Nat.toDigits 16 n
  List.replicate (width - digits.length) '0' ++ digits

/-- A character by its code point: two, four or eight hexadecimal digits, as few as suffice. -/
def escapeCode (n : Nat) : List Char :=
  if n < 0x100 then '\\' :: 'x' :: hexDigits 2 n
  else if n < 0x10000 then '\\' :: 'u' :: hexDigits 4 n
  else '\\' :: 'U' :: hexDigits 8 n

/-- How a character is written between two `mark`s. -/
def escape (mark c : Char) : List Char :=
  if c == mark || c == '\\' then ['\\', c]
  else if c == '\n' then ['\\', 'n']
  else if c == '\r' then ['\\', 'r']
  else if c == '\t' then ['\\', 't']
  else if isPrintable c then [c]
  else escapeCode c.toNat

/-- The quotation mark of a text: the single one, unless only the double one spares an escape. -/
def quoteMark (cs : List Char) : Char :=
  if cs.contains '\x27' && !cs.contains '"' then '"' else '\x27'

/-- A text between quotation marks, on one line and without unprintable characters. -/
def quoted (s : String) : String :=
  let cs := s.toList
  let mark := quoteMark cs
  String.ofList (mark :: cs.flatMap (escape mark) ++ [mark])

end TurtleGraphics.Text
