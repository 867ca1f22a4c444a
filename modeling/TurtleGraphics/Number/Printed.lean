import TurtleGraphics.Number.Shortest

/-!
# TurtleGraphics.Number.Printed

The text of a double: the digits of its shortest decimal, with a point among them where the number
is of moderate size and with a power of ten behind them where it is not.

* `positional` : `123.0`, `0.5`, at least one digit on each side of the point.
* `scientific` : `1e+16`, `1.5e-07`, one digit before the point and two or more in the exponent.
* `text`       : a double, with the names of the infinite ones and of the one that is no number.
-/

namespace TurtleGraphics.Number

/-- The significant digits of a number, without zeros at the end. -/
def significant (n : Nat) : List Char :=
  ((Nat.toDigits 10 n).reverse.dropWhile (· == '0')).reverse

/-- Digits with the point after the first `point` of them, filled up with zeros. -/
def positional (ds : List Char) : Int → List Char
  | .ofNat 0 => '0' :: '.' :: ds
  | .ofNat (point + 1) =>
    if ds.length ≤ point + 1 then
      ds ++ List.replicate (point + 1 - ds.length) '0' ++ ['.', '0']
    else ds.take (point + 1) ++ '.' :: ds.drop (point + 1)
  | .negSucc zeros => '0' :: '.' :: List.replicate (zeros + 1) '0' ++ ds

/-- The digits of an exponent, at least two of them. -/
def exponentDigits (n : Nat) : List Char :=
  if n < 10 then '0' :: Nat.toDigits 10 n else Nat.toDigits 10 n

/-- An exponent with its sign. -/
def exponentText : Int → List Char
  | .ofNat e => '+' :: exponentDigits e
  | .negSucc e => '-' :: exponentDigits (e + 1)

/-- One digit, the other digits after a point if there are any, and the power of ten. -/
def scientific (ds : List Char) (exponent : Int) : List Char :=
  match ds with
  | [] => 'e' :: exponentText exponent
  | [d] => d :: 'e' :: exponentText exponent
  | d :: rest => d :: '.' :: rest ++ 'e' :: exponentText exponent

/-- The lowest power of ten of the first digit that is still written with a point. -/
def lowestPositional : Int := -4

/-- The lowest power of ten of the first digit that is too high to be written with a point. -/
def lowestScientific : Int := 16

/-- The text of a decimal. -/
def Decimal.chars (d : Decimal) : List Char :=
  if d.digits = 0 then ['0', '.', '0']
  else
    let ds := significant d.digits
    let point := Int.ofNat (Nat.toDigits 10 d.digits).length + d.exponent
    let first := point - 1
    if lowestPositional ≤ first && first < lowestScientific then
      positional ds point
    else scientific ds first

/-- The sign of a number, shown only if it is negative. -/
def signed (negative : Bool) (cs : List Char) : String :=
  String.ofList (if negative then '-' :: cs else cs)

/-- The text of a double. -/
def text (x : Float) : String :=
  match Parts.of x with
  | .finite negative bits =>
    signed negative (if bits = 0 then ['0', '.', '0'] else (shortest bits).chars)
  | .infinite negative => signed negative ['i', 'n', 'f']
  | .notANumber => "nan"

end TurtleGraphics.Number
