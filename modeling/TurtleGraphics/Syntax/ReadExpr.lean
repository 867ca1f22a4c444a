import TurtleGraphics.Number.Numeral
import TurtleGraphics.Syntax.Basic
import TurtleGraphics.Syntax.ParseError

/-!
# TurtleGraphics.Syntax.ReadExpr

Reading an expression off the front of a list of tokens. The operator stands first and fixes the
number of its operands, so an expression ends where its last operand does and needs no brackets.

* `Expr.ofLiteral` : a quoted word as a truth value or a finite number.
* `Expr.read`      : one expression, and the tokens after it.
* `Expr.readMany`  : as many expressions as asked for.

`limit` bounds how deep an expression may be nested. An expression takes at least one token
(`Expr.length_lt_of_read`).
-/

namespace TurtleGraphics

namespace Expr

/-- The value that a quoted word spells. -/
def ofLiteral (t : Token) : Except ParseFault Expr :=
  if t.text = "TRUE" then .ok (.boolean true)
  else if t.text = "FALSE" then .ok (.boolean false)
  else
    match Number.read t.text with
    | none => .error (.notNumeral t.raw)
    | some x => if Number.isFinite x then .ok (.number x) else .error (.notFinite t.raw)

/-- Reads one expression. -/
def read : Nat → List Token → Except Stop (Expr × List Token)
  | 0, _ => .error .tooDeep
  | _ + 1, [] => .error (.fault .expectedExpression [])
  | limit + 1, t :: rest =>
    match t.kind with
    | .quoted =>
      match ofLiteral t with
      | .error f => .error (.fault f (t :: rest))
      | .ok e => .ok (e, rest)
    | .variable => .ok (.variable t.text, rest)
    | .word =>
      match Keyword.of? t.text with
      | some (.query q) => .ok (.query q, rest)
      | some .negation =>
        match read limit rest with
        | .error s => .error s
        | .ok (e, rest₁) => .ok (.negation e, rest₁)
      | some (.numeric op) =>
        match read limit rest with
        | .error s => .error s
        | .ok (l, rest₁) =>
          match read limit rest₁ with
          | .error s => .error s
          | .ok (r, rest₂) => .ok (.numeric op l r, rest₂)
      | some (.logic op) =>
        match read limit rest with
        | .error s => .error s
        | .ok (l, rest₁) =>
          match read limit rest₁ with
          | .error s => .error s
          | .ok (r, rest₂) => .ok (.logic op l r, rest₂)
      | _ => .error (.fault .expectedExpression (t :: rest))
    | .openBlock => .error (.fault .expectedExpression (t :: rest))
    | .closeBlock => .error (.fault .expectedExpression (t :: rest))

/-- Reads a number of expressions that follow one another. -/
def readMany (limit : Nat) : Nat → List Token → Except Stop (List Expr × List Token)
  | 0, ts => .ok ([], ts)
  | count + 1, ts =>
    match read limit ts with
    | .error s => .error s
    | .ok (e, rest) =>
      match readMany limit count rest with
      | .error s => .error s
      | .ok (es, rest₁) => .ok (e :: es, rest₁)

/-- An expression takes at least one token. -/
theorem length_lt_of_read {limit : Nat} {ts rest : List Token} {e : Expr}
    (h : read limit ts = .ok (e, rest)) : rest.length < ts.length := by
  induction limit generalizing ts rest e with
  | zero => cases h
  | succ limit ih =>
    cases ts with
    | nil => cases h
    | cons t ts =>
      simp only [read] at h
      split at h
      · split at h
        · cases h
        · cases h; exact Nat.lt_succ_self _
      · cases h; exact Nat.lt_succ_self _
      · split at h
        · cases h; exact Nat.lt_succ_self _
        · split at h
          · cases h
          · rename_i hr
            cases h
            exact Nat.lt_succ_of_lt (ih hr)
        · split at h
          · cases h
          · rename_i hl
            split at h
            · cases h
            · rename_i hr
              cases h
              exact Nat.lt_succ_of_lt (Nat.lt_trans (ih hr) (ih hl))
        · split at h
          · cases h
          · rename_i hl
            split at h
            · cases h
            · rename_i hr
              cases h
              exact Nat.lt_succ_of_lt (Nat.lt_trans (ih hr) (ih hl))
        · cases h
      · cases h
      · cases h

end Expr

end TurtleGraphics
