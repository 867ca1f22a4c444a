import TurtleGraphics.Number.Decimal
import TurtleGraphics.Text.Digit

/-!
# TurtleGraphics.Number.Numeral

Reading a number from text. A numeral may stand between blanks and have a sign; it is a decimal
with or without point and exponent, or the name of an infinite double or of the one that is no
number. Digits may be of any script, and a single `_` may stand between two of them.

* `isPadding`  : the blanks around a numeral.
* `digitRun`   : the digits at the start of a text, and what follows.
* `decimal?`   : a decimal without sign.
* `special?`   : the names of the doubles that are not finite.
* `read`       : a whole numeral.
-/

namespace TurtleGraphics.Number

open TurtleGraphics.Text (digitValue?)

/-- The blanks that may stand around a numeral: the Unicode ones, and of the control characters
those from tab to carriage return. -/
def isPadding (c : Char) : Bool :=
  let n := c.toNat
  (0x09 ≤ n && n ≤ 0x0d) || n == 0x20 || n == 0x85 || n == 0xa0 || n == 0x1680 ||
    (0x2000 ≤ n && n ≤ 0x200a) || n == 0x2028 || n == 0x2029 || n == 0x202f || n == 0x205f ||
    n == 0x3000

/-- A text without the blanks at its two ends. -/
def unpadded (cs : List Char) : List Char :=
  ((cs.dropWhile isPadding).reverse.dropWhile isPadding).reverse

/-- Whether a text starts with a digit. -/
def startsWithDigit : List Char → Bool
  | [] => false
  | c :: _ => (digitValue? c).isSome

/-- The digits at the start of a text and what follows them; `inside` says that a digit was just
read, so that an underscore before another digit may be passed over. -/
def digitRun : Bool → List Char → List Nat × List Char
  | _, [] => ([], [])
  | inside, c :: cs =>
    match digitValue? c with
    | some d =>
      let more := digitRun true cs
      (d :: more.1, more.2)
    | none =>
      if inside && c == '_' && startsWithDigit cs then digitRun false cs
      else ([], c :: cs)

/-- The number that a row of digits spells. -/
def ofDigits (ds : List Nat) : Nat :=
  ds.foldl (fun n d => 10 * n + d) 0

/-- The sign at the start of a text, as negative or not, and what follows it. -/
def signOf : List Char → Bool × List Char
  | '-' :: cs => (true, cs)
  | '+' :: cs => (false, cs)
  | cs => (false, cs)

/-- What may follow the digits of a decimal: nothing, or `e` and a whole number to the end. -/
def exponent? : List Char → Option Int
  | [] => some 0
  | c :: cs =>
    if c == 'e' || c == 'E' then
      let s := signOf cs
      match digitRun false s.2 with
      | (d :: ds, []) =>
        let n := Int.ofNat (ofDigits (d :: ds))
        some (if s.1 then -n else n)
      | _ => none
    else none

/-- A decimal without sign: digits on at least one side of an optional point. -/
def decimal? (cs : List Char) : Option Decimal :=
  let before := digitRun false cs
  let after : List Nat × List Char :=
    match before.2 with
    | '.' :: rest => digitRun false rest
    | rest => ([], rest)
  match before.1 ++ after.1 with
  | [] => none
  | d :: ds =>
    match exponent? after.2 with
    | some e => some ⟨ofDigits (d :: ds), e - Int.ofNat after.1.length⟩
    | none => none

/-- A letter without regard to case, other characters as they are. -/
def lowered (c : Char) : Char :=
  if 'A' ≤ c && c ≤ 'Z' then Char.ofNat (c.toNat + 32) else c

/-- The doubles that are not finite, by name and sign. -/
def special? (negative : Bool) (cs : List Char) : Option Float :=
  let name := cs.map lowered
  if name == ['i', 'n', 'f'] || name == ['i', 'n', 'f', 'i', 'n', 'i', 't', 'y'] then
    some (infinity negative)
  else if name == ['n', 'a', 'n'] then some notANumber
  else none

/-- The double that a text spells, if it spells one. -/
def read (s : String) : Option Float :=
  let signAndRest := signOf (unpadded s.toList)
  match special? signAndRest.1 signAndRest.2 with
  | some x => some x
  | none =>
    match decimal? signAndRest.2 with
    | some d => some (d.toFloat signAndRest.1)
    | none => none

end TurtleGraphics.Number
