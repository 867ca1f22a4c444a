import Mathlib.Data.List.Forall2
import TurtleGraphics.Proofs.Phrases
import TurtleGraphics.Proofs.WellFormed

/-!
# TurtleGraphics.Proofs.PrefixOrder

Expressions as a code that needs no delimiters.

* `Expr.InLanguage`  : the words of an expression are in the vocabulary, and its numbers finite.
* `Token.Alike`      : two tokens are the same, or two spellings of one literal.
* `Expr.SpelledBy`   : tokens spell an expression in prefix order, but for the spelling of literals.
* `Expr.spelledBy_iff_derived` : so do exactly the tokens from which the grammar derives it.
* `parseExpr_eq_ok_iff` : what the parser accepts at an index, and where that ends.
* `parseExpr_selfDelimiting` : nothing before or after an expression has a part in it.

A variable may have any name here. That a name can be written in a text is a matter of texts, and
the parser of expressions sees tokens only.
-/

namespace TurtleGraphics

/-! ## Expressions of the language -/

/-- The expression is made of words of the vocabulary, finite numbers, truth values and variables
of any name. -/
def Expr.InLanguage : Expr → Prop
  | .number x => Number.isFinite x = true
  | .boolean _ => True
  | .variable _ => True
  | .query q => (Keyword.query q).Listed
  | .numeric op l r => (Keyword.numeric op).Listed ∧ l.InLanguage ∧ r.InLanguage
  | .logic op l r => (Keyword.logic op).Listed ∧ l.InLanguage ∧ r.InLanguage
  | .negation e => e.InLanguage
  | .foreign _ => False

/-- Two tokens are the same, or they are literals that denote the same. -/
inductive Token.Alike : Token → Token → Prop where
  | same (t : Token) : Alike t t
  | literal {text text' : String} {e : Expr} : Literal text e → Literal text' e →
      Alike (.ofQuoted text) (.ofQuoted text')

/-- The expression is one of the language, and its tokens are these but for the spelling of its
literals. -/
def Expr.SpelledBy (e : Expr) (used : List Token) : Prop :=
  e.InLanguage ∧ ∃ ts, e.tokens = .ok ts ∧ List.Forall₂ Token.Alike used ts

theorem Literal.unique {text : String} {e e' : Expr} (h : Literal text e) (h' : Literal text e') :
    e = e' := by
  have hof := Expr.ofLiteral_of_literal h
  rw [Expr.ofLiteral_of_literal h'] at hof
  exact (Except.ok.inj hof).symm

theorem Token.Alike.eq_ofWord {t : Token} {w : String} (h : t.Alike (.ofWord w)) :
    t = .ofWord w := by
  generalize hu : Token.ofWord w = u at h
  cases h with
  | same => rfl
  | literal _ _ => cases hu

namespace Expr

theorem InLanguage.derived {e : Expr} (h : e.InLanguage) :
    ∃ ts, e.tokens = .ok ts ∧ Derived ts e := by
  induction e with
  | number x => exact ⟨_, rfl, .literal (literal_text h)⟩
  | boolean b =>
    cases b with
    | true => exact ⟨_, rfl, .literal .yes⟩
    | false => exact ⟨_, rfl, .literal .no⟩
  | «variable» name => exact ⟨_, rfl, .variable⟩
  | query q => exact ⟨_, rfl, .query h.of?_word⟩
  | numeric op l r ihl ihr =>
    obtain ⟨hop, hl, hr⟩ := h
    obtain ⟨ls, hls, hl⟩ := ihl hl
    obtain ⟨rs, hrs, hr⟩ := ihr hr
    exact ⟨_, by simp only [tokens, hls, hrs]; rfl, .numeric hop.of?_word hl hr⟩
  | logic op l r ihl ihr =>
    obtain ⟨hop, hl, hr⟩ := h
    obtain ⟨ls, hls, hl⟩ := ihl hl
    obtain ⟨rs, hrs, hr⟩ := ihr hr
    exact ⟨_, by simp only [tokens, hls, hrs]; rfl, .logic hop.of?_word hl hr⟩
  | negation e ih =>
    obtain ⟨ts, hts, he⟩ := ih h
    have hnot : Keyword.Listed .negation := by decide
    exact ⟨_, by simp only [tokens, hts]; rfl, .negation hnot.of?_word he⟩
  | foreign s => cases h

theorem Derived.inLanguage {ts : List Token} {e : Expr} (h : Derived ts e) : e.InLanguage := by
  induction h with
  | literal hl =>
    cases hl with
    | yes => trivial
    | no => trivial
    | number _ _ _ hf => exact hf
  | «variable» => trivial
  | query hw => exact Keyword.listed_of_of? hw
  | negation _ _ ih => exact ih
  | numeric hw _ _ ihl ihr => exact ⟨Keyword.listed_of_of? hw, ihl, ihr⟩
  | logic hw _ _ ihl ihr => exact ⟨Keyword.listed_of_of? hw, ihl, ihr⟩

/-- An expression is printed as the tokens that it was derived from, but for its literals. -/
theorem Derived.alike {used : List Token} {e : Expr} (h : Derived used e) :
    ∃ ts, e.tokens = .ok ts ∧ List.Forall₂ Token.Alike used ts := by
  induction h with
  | literal hl =>
    cases hl with
    | yes => exact ⟨_, rfl, .cons (.same _) .nil⟩
    | no => exact ⟨_, rfl, .cons (.same _) .nil⟩
    | number hyes hno hx hf =>
      exact ⟨_, rfl, .cons (.literal (.number hyes hno hx hf) (literal_text hf)) .nil⟩
  | «variable» => exact ⟨_, rfl, .cons (.same _) .nil⟩
  | query hw =>
    cases Keyword.word_of?_eq hw
    exact ⟨_, rfl, .cons (.same _) .nil⟩
  | negation hw _ ih =>
    cases Keyword.word_of?_eq hw
    obtain ⟨ts, hts, halike⟩ := ih
    exact ⟨_, by simp only [tokens, hts]; rfl, .cons (.same _) halike⟩
  | numeric hw _ _ ihl ihr =>
    cases Keyword.word_of?_eq hw
    obtain ⟨ls, hls, hl⟩ := ihl
    obtain ⟨rs, hrs, hr⟩ := ihr
    exact ⟨_, by simp only [tokens, hls, hrs]; rfl, .cons (.same _) (List.rel_append hl hr)⟩
  | logic hw _ _ ihl ihr =>
    cases Keyword.word_of?_eq hw
    obtain ⟨ls, hls, hl⟩ := ihl
    obtain ⟨rs, hrs, hr⟩ := ihr
    exact ⟨_, by simp only [tokens, hls, hrs]; rfl, .cons (.same _) (List.rel_append hl hr)⟩

/-- The literals of an expression may be spelled otherwise. -/
theorem Derived.respelled {ts used : List Token} {e : Expr} (h : Derived ts e)
    (halike : List.Forall₂ Token.Alike used ts) : Derived used e := by
  induction h generalizing used with
  | @literal text e hl =>
    obtain ⟨t, rest, ht, hrest, rfl⟩ := List.forall₂_cons_right_iff.mp halike
    rw [List.forall₂_nil_right_iff.mp hrest]
    generalize hu : Token.ofQuoted text = u at ht
    cases ht with
    | same => exact hu ▸ .literal hl
    | literal h h' =>
      cases hu
      cases h'.unique hl
      exact .literal h
  | @«variable» name =>
    obtain ⟨t, rest, ht, hrest, rfl⟩ := List.forall₂_cons_right_iff.mp halike
    rw [List.forall₂_nil_right_iff.mp hrest]
    generalize hu : (⟨.variable, name⟩ : Token) = u at ht
    cases ht with
    | same => exact hu ▸ .variable
    | literal _ _ => cases hu
  | query hw =>
    obtain ⟨t, rest, ht, hrest, rfl⟩ := List.forall₂_cons_right_iff.mp halike
    rw [List.forall₂_nil_right_iff.mp hrest, ht.eq_ofWord]
    exact .query hw
  | negation hw _ ih =>
    obtain ⟨t, rest, ht, hrest, rfl⟩ := List.forall₂_cons_right_iff.mp halike
    rw [ht.eq_ofWord]
    exact .negation hw (ih hrest)
  | @numeric w op ls rs l r hw _ _ ihl ihr =>
    obtain ⟨t, rest, ht, hrest, rfl⟩ := List.forall₂_cons_right_iff.mp halike
    rw [ht.eq_ofWord, ← List.take_append_drop ls.length rest]
    exact .numeric hw (ihl (List.forall₂_take_append _ _ _ hrest))
      (ihr (List.forall₂_drop_append _ _ _ hrest))
  | @logic w op ls rs l r hw _ _ ihl ihr =>
    obtain ⟨t, rest, ht, hrest, rfl⟩ := List.forall₂_cons_right_iff.mp halike
    rw [ht.eq_ofWord, ← List.take_append_drop ls.length rest]
    exact .logic hw (ihl (List.forall₂_take_append _ _ _ hrest))
      (ihr (List.forall₂_drop_append _ _ _ hrest))

/-- The grammar derives an expression from the tokens that spell it and from no others. -/
theorem spelledBy_iff_derived {e : Expr} {used : List Token} :
    e.SpelledBy used ↔ Derived used e := by
  constructor
  · rintro ⟨hlanguage, ts, hts, halike⟩
    obtain ⟨us, hus, hd⟩ := hlanguage.derived
    rw [hts] at hus
    cases hus
    exact hd.respelled halike
  · intro h
    exact ⟨h.inLanguage, h.alike⟩

/-- No expression is the beginning of another one. -/
theorem SpelledBy.length_le {e e' : Expr} {used : List Token} {n : Nat} (h : e.SpelledBy used)
    (h' : e'.SpelledBy (used.take n)) : used.length ≤ n := by
  rw [spelledBy_iff_derived] at h h'
  have heq := definite_phrase ⟨e', h'⟩ ⟨e, h⟩
    ((List.take_append_drop n used).trans (List.append_nil used).symm)
  have hlength := congrArg List.length heq
  rw [List.length_take] at hlength
  omega

end Expr

/-! ## At an index -/

/-- The parser accepts an expression at an index if the tokens from there to the end that it gives
spell the expression, and it accepts nothing else. -/
theorem parseExpr_eq_ok_iff {limit start stop : Nat} {tokens : List Token} {e : Expr} :
    parseExpr limit tokens start = .ok (e, stop) ↔
      start < stop ∧ stop ≤ tokens.length ∧ e.SpelledBy (tokens.extract start stop) ∧
        e.nesting ≤ limit := by
  rw [Expr.spelledBy_iff_derived, parseExpr]
  constructor
  · intro h
    split at h
    · cases h
    · rename_i e' rest hread
      cases h
      obtain ⟨used, hused, hd, hn⟩ := Expr.read_sound hread
      have hpos := List.length_pos_of_ne_nil hd.ne_nil
      have hlength := congrArg List.length hused
      rw [List.length_drop, List.length_append] at hlength
      have hcount : tokens.length - rest.length - start = used.length := by omega
      refine ⟨by omega, Nat.sub_le _ _, ?_, hn⟩
      rw [List.extract_eq_take_drop, hcount, hused, List.take_left]
      exact hd
  · rintro ⟨hlt, hle, hd, hn⟩
    have hsplit : tokens.drop start = tokens.extract start stop ++ tokens.drop stop := by
      rw [List.extract_eq_take_drop, ← Nat.add_sub_cancel' (Nat.le_of_lt hlt),
        Nat.add_sub_cancel_left, ← List.drop_drop, List.take_append_drop]
    rw [hsplit, Expr.read_complete hd _ hn]
    simp only [List.length_drop]
    rw [Nat.sub_sub_self hle]

theorem length_extract_of_le {tokens : List Token} {start stop : Nat}
    (h : stop ≤ tokens.length) : (tokens.extract start stop).length = stop - start := by
  rw [List.extract_eq_take_drop, List.length_take, List.length_drop]
  omega

/-- What spells an expression does so between any other tokens. -/
theorem parseExpr_between {limit : Nat} {e : Expr} {used : List Token} (h : e.SpelledBy used)
    (hn : e.nesting ≤ limit) (before after : List Token) :
    parseExpr limit (before ++ used ++ after) before.length =
      .ok (e, before.length + used.length) := by
  have hpos := List.length_pos_of_ne_nil (Expr.spelledBy_iff_derived.mp h).ne_nil
  refine parseExpr_eq_ok_iff.mpr ⟨by omega, by simp, ?_, hn⟩
  rw [List.extract_eq_take_drop, List.append_assoc, List.drop_left, Nat.add_sub_cancel_left,
    List.take_left]
  exact h

/-- An expression delimits itself. The tokens that the parser takes at an index spell the
expression that it gives, and between any other tokens they are read as the same expression with
the same end. What an expression is printed as is read as this expression, whatever stands before
and behind. And no expression is the beginning of another one, so in the tokens of one there is
none that ends before. -/
theorem parseExpr_selfDelimiting :
    (∀ limit tokens start e stop, parseExpr limit tokens start = .ok (e, stop) →
      start < stop ∧ stop ≤ tokens.length ∧ e.SpelledBy (tokens.extract start stop) ∧
      ∀ before after,
        parseExpr limit (before ++ tokens.extract start stop ++ after) before.length =
          .ok (e, before.length + (stop - start))) ∧
    (∀ e : Expr, e.InLanguage → ∃ ts, e.tokens = .ok ts ∧
      ∀ limit before after, e.nesting ≤ limit →
        parseExpr limit (before ++ ts ++ after) before.length =
          .ok (e, before.length + ts.length)) ∧
    ∀ (e : Expr) (used : List Token), e.SpelledBy used → ∀ n, n < used.length →
      ∀ limit e' stop, parseExpr limit (used.take n) 0 ≠ .ok (e', stop) := by
  refine ⟨?_, ?_, ?_⟩
  · intro limit tokens start e stop h
    obtain ⟨hlt, hle, hspelled, hn⟩ := parseExpr_eq_ok_iff.mp h
    refine ⟨hlt, hle, hspelled, fun before after => ?_⟩
    rw [← length_extract_of_le hle]
    exact parseExpr_between hspelled hn before after
  · intro e h
    obtain ⟨ts, hts, hd⟩ := h.derived
    exact ⟨ts, hts, fun limit before after hn =>
      parseExpr_between (Expr.spelledBy_iff_derived.mpr hd) hn before after⟩
  · intro e used hspelled n hshort limit e' stop h
    obtain ⟨-, hle, hspelled', -⟩ := parseExpr_eq_ok_iff.mp h
    rw [List.extract_eq_take_drop, List.drop_zero, List.take_take] at hspelled'
    have hlength := hspelled.length_le hspelled'
    omega

/-- The number of a sum in another spelling than it is printed in, and the sum at another place. -/
theorem parseExpr_selfDelimiting_sum :
    let sum : List Token := [.ofWord "+", .ofQuoted "05.0", ⟨.variable, "x"⟩]
    ∃ e, parseExpr 9 (.ofWord "FORWARD" :: sum ++ [.ofWord "LEFT"]) 1 = .ok (e, 4) ∧
      e.SpelledBy sum ∧
      parseExpr 9 (sum ++ [.closing]) 0 = .ok (e, 3) ∧
      (∃ ts, e.tokens = .ok ts ∧ parseExpr 9 ts 0 = .ok (e, ts.length)) ∧
      ∀ limit e' stop', parseExpr limit (sum.take 2) 0 ≠ .ok (e', stop') := by
  intro sum
  have hend : ((parseExpr 9 (.ofWord "FORWARD" :: sum ++ [.ofWord "LEFT"]) 1).toOption.map
      (·.2)) = some 4 := by
    decide +kernel
  cases h : parseExpr 9 (.ofWord "FORWARD" :: sum ++ [.ofWord "LEFT"]) 1 with
  | error f =>
    rw [h] at hend
    cases hend
  | ok result =>
    obtain ⟨e, stop⟩ := result
    rw [h] at hend
    cases hend
    obtain ⟨hreads, hprinted, hshort⟩ := parseExpr_selfDelimiting
    obtain ⟨-, -, hspelled, hbetween⟩ := hreads _ _ _ _ _ h
    obtain ⟨ts, hts, hback⟩ := hprinted e hspelled.1
    have hn : e.nesting ≤ 9 := (parseExpr_eq_ok_iff.mp h).2.2.2
    refine ⟨e, rfl, hspelled, hbetween [] [.closing], ⟨ts, hts, ?_⟩, ?_⟩
    · simpa using hback 9 [] [] hn
    · exact hshort e sum hspelled 2 (by decide)

end TurtleGraphics
