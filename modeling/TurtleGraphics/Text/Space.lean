/-!
# TurtleGraphics.Text.Space

The character classes that decide where a token begins and ends.

* `isSpace`    : white space in the sense of Unicode; it ends a token.
* `isSkipped`  : the white space that may stand between tokens.
* `isNameChar` : what a name is made of, everything but white space and brackets.

`isSkipped` is the smaller class: a vertical tab, say, ends a name and is then no token itself.
-/

namespace TurtleGraphics.Text

/-- White space: the control characters that separate lines and fields, and the Unicode blanks. -/
def isSpace (c : Char) : Bool :=
  let n := c.toNat
  (0x09 ≤ n && n ≤ 0x0d) || (0x1c ≤ n && n ≤ 0x20) || n == 0x85 || n == 0xa0 || n == 0x1680 ||
    (0x2000 ≤ n && n ≤ 0x200a) || n == 0x2028 || n == 0x2029 || n == 0x202f || n == 0x205f ||
    n == 0x3000

/-- The white space allowed between tokens: space, tab, form feed and the two line ends. -/
def isSkipped (c : Char) : Bool :=
  c == ' ' || c == '\t' || c == '\x0c' || c == '\r' || c == '\n'

/-- The brackets of a block are tokens of their own wherever they stand. -/
def isBracket (c : Char) : Bool :=
  c == '[' || c == ']'

/-- What a name consists of. -/
def isNameChar (c : Char) : Bool :=
  !isSpace c && !isBracket c

/-- The mark that opens a quoted word or a variable. -/
def isSigil (c : Char) : Bool :=
  c == '"' || c == ':'

theorem isSpace_of_isSkipped {c : Char} (h : isSkipped c = true) : isSpace c = true := by
  simp only [isSkipped, Bool.or_eq_true, beq_iff_eq] at h
  rcases h with (((h | h) | h) | h) | h <;> subst h <;> decide

theorem not_isNameChar_of_isSkipped {c : Char} (h : isSkipped c = true) :
    isNameChar c = false := by
  simp [isNameChar, isSpace_of_isSkipped h]

end TurtleGraphics.Text
