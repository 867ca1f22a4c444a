import TurtleGraphics.Proofs.WrongToken

/-!
# TurtleGraphics.Proofs.BracketFaults

The parser never has to complain about a bracket.

The check of a text is the only place where brackets without a partner are found out. On what passes
it, the parser finds the partner of every opening bracket, and it has two faults that it can never
report: that a block does not end, and that a closing bracket stands where a statement is to start.

* `Partners`               : two places of a list with brackets that belong together.
* `closingOffset?_partner` : the search for the end of a block finds the partner, which is unique.
* `parse_spares_brackets`  : the parser does not report a bracket as being without a partner.
* `lexError_of_unbalanced` : the check of a text does.
* `brackets_agree`         : the check and the parser agree.
-/

namespace TurtleGraphics

/-- The tokens at two places open and close the same block: between them all blocks are closed. -/
def Partners (ts : List Token) (i j : Nat) : Prop :=
  ∃ (before inner after : List Token) (opener closer : Token),
    ts = before ++ opener :: (inner ++ closer :: after) ∧ before.length = i ∧
      i + 1 + inner.length = j ∧ opener.kind = .openBlock ∧ Balanced inner ∧
      closer.kind = .closeBlock

/-- From an opening bracket on, the end of its block is found at the one place where its partner
stands. -/
theorem closingOffset?_partner {ts : List Token} (hclosed : BlocksClosed ts) {i : Nat} {t : Token}
    (hi : ts[i]? = some t) (ho : t.kind = .openBlock) :
    ∃ n, closingOffset? 0 (ts.drop (i + 1)) = some n ∧ ∀ j, Partners ts i j ↔ j = i + 1 + n := by
  obtain ⟨hlt, rfl⟩ := List.getElem?_eq_some_iff.mp hi
  have hsplit : ts = ts.take i ++ ts[i] :: ts.drop (i + 1) := by
    rw [← List.drop_eq_getElem_cons hlt, List.take_append_drop]
  have htake : (ts.take i).length = i := List.length_take_of_le (Nat.le_of_lt hlt)
  have htail : BlocksClosed (ts[i] :: ts.drop (i + 1)) := by
    rw [hsplit] at hclosed
    exact hclosed.of_append
  obtain ⟨inner, closer, after, hrest, hinner, hc⟩ := htail.1 ho
  have hn : closingOffset? 0 (ts.drop (i + 1)) = some inner.length := by
    rw [hrest]
    exact closingOffset?_of_balanced hinner hc after
  refine ⟨inner.length, hn, fun j => ⟨?_, ?_⟩⟩
  · rintro ⟨before, inner', after', opener, closer', hts, hbefore, rfl, -, hinner', hc'⟩
    obtain ⟨-, heq⟩ := List.append_inj (hsplit.symm.trans hts) (htake.trans hbefore.symm)
    have hother := (closingOffset?_eq_some_iff htail ho).mpr
      ⟨inner', closer', after', (List.cons.inj heq).2, rfl, hinner', hc'⟩
    rw [hn] at hother
    rw [Option.some.inj hother]
  · rintro rfl
    exact ⟨ts.take i, inner, after, ts[i], closer, by rw [← hrest, ← hsplit], htake, rfl, ho,
      hinner, hc⟩

/-- Where brackets pair up, no error of the parser is about a bracket without a partner. -/
theorem parse_spares_brackets {limit : Nat} {tokens : List Token} {e : ParseError}
    (hbalanced : Balanced tokens) (h : (parse limit tokens).1 = .error (.error e)) :
    e.fault ≠ .unterminatedBlock ∧ e.fault ≠ .unexpectedClose := by
  obtain ⟨name, hname⟩ | ⟨hlocal, -⟩ := stuck_of_parse hbalanced h
  · simp [hname]
  · constructor
    all_goals
      intro hfault
      rw [hfault] at hlocal
      cases hlocal

/-- The check of the brackets fails for a bracket without a partner, and for nothing else. -/
theorem fault_of_unbalanced {opened : List Place} {ls : List Lexeme} {e : LexError}
    (h : unbalanced opened ls = some e) :
    e.fault = .unmatchedClose ∨ e.fault = .unclosedOpen := by
  induction ls generalizing opened with
  | nil =>
    cases opened with
    | nil => cases h
    | cons p opened =>
      cases h
      exact .inr rfl
  | cons l ls ih =>
    by_cases hb : l.token.isBracket = true
    · obtain ho | hc := Token.kind_of_isBracket hb
      · rw [unbalanced_open ho] at h
        exact ih h
      · cases opened with
        | nil =>
          simp only [unbalanced, hc, Option.some.injEq] at h
          exact .inl (h ▸ rfl)
        | cons p opened =>
          rw [unbalanced_close hc] at h
          exact ih h
    · rw [unbalanced_plain (by simpa using hb)] at h
      exact ih h

/-- A text whose brackets do not pair up is refused for that before it is parsed. -/
theorem lexError_of_unbalanced {text : String} {ls : List Lexeme} (hls : lexemes text = .ok ls)
    (hbrackets : ¬ Balanced (tokensOf ls)) (limit : Nat) :
    ∃ e, parseScript limit text = .error (.lex e) ∧
      (e.fault = .unmatchedClose ∨ e.fault = .unclosedOpen) := by
  cases hcheck : unbalanced [] ls with
  | none => exact absurd (unbalanced_eq_none_iff.mp hcheck) hbrackets
  | some e =>
    refine ⟨e, ?_, fault_of_unbalanced hcheck⟩
    simp only [parseScript, tokenize, hls, hcheck]

/-- The check of the brackets and the parser agree. On what passes the check, the parser finds the
one partner of every opening bracket and has no fault to find with a bracket for want of its
partner. A text is parsed only if it passes the check, and refused for its brackets if they are all
that keeps it from passing. -/
theorem brackets_agree :
    (∀ ls : List Lexeme, unbalanced [] ls = none →
      (∀ (i : Nat) (t : Token), (tokensOf ls)[i]? = some t → t.kind = .openBlock →
        ∃ n, closingOffset? 0 ((tokensOf ls).drop (i + 1)) = some n ∧
          ∀ j, Partners (tokensOf ls) i j ↔ j = i + 1 + n) ∧
      ∀ limit e, (parse limit (tokensOf ls)).1 = .error (.error e) →
        e.fault ≠ .unterminatedBlock ∧ e.fault ≠ .unexpectedClose) ∧
    ∀ text : String,
      (∀ ls, tokenize text = .ok ls → unbalanced [] ls = none) ∧
      (∀ limit e, parseScript limit text = .error (.parse (.error e)) →
        e.fault ≠ .unterminatedBlock ∧ e.fault ≠ .unexpectedClose) ∧
      ∀ ls, lexemes text = .ok ls → ¬ Balanced (tokensOf ls) → ∀ limit,
        ∃ e, parseScript limit text = .error (.lex e) ∧
          (e.fault = .unmatchedClose ∨ e.fault = .unclosedOpen) := by
  refine ⟨fun ls hcheck => ?_, fun text => ⟨?_, ?_, ?_⟩⟩
  · have hbalanced : Balanced (tokensOf ls) := unbalanced_eq_none_iff.mp hcheck
    exact ⟨fun i t hi ho => closingOffset?_partner hbalanced.blocksClosed hi ho,
      fun limit e he => parse_spares_brackets hbalanced he⟩
  · intro ls hls
    exact unbalanced_eq_none_iff.mpr (balanced_of_tokenize hls)
  · intro limit e he
    simp only [parseScript] at he
    split at he
    · cases he
    · rename_i ls hls
      split at he
      · rename_i f hf
        cases he
        exact parse_spares_brackets (balanced_of_tokenize hls) hf
      · cases he
  · intro ls hls hbrackets limit
    exact lexError_of_unbalanced hls hbrackets limit

/-- A block in a block ends before the other one, and a bracket too many is found by the check. -/
theorem brackets_agree_nested :
    (∃ ls, tokenize "IF :x [ IF :y [ ] ]" = .ok ls ∧
      closingOffset? 0 ((tokensOf ls).drop 3) = some 4 ∧ ∀ j, Partners (tokensOf ls) 2 j ↔ j = 7) ∧
    ∃ ls e, lexemes "IF :x [ ] ]" = .ok ls ∧ ¬ Balanced (tokensOf ls) ∧
      parseScript 9 "IF :x [ ] ]" = .error (.lex e) ∧
      (e.fault = .unmatchedClose ∨ e.fault = .unclosedOpen) := by
  have hnested : tokenize "IF :x [ IF :y [ ] ]" = .ok
      [⟨.ofWord "IF", ⟨1, 1⟩⟩, ⟨⟨.variable, "x"⟩, ⟨1, 4⟩⟩, ⟨.opening, ⟨1, 7⟩⟩,
        ⟨.ofWord "IF", ⟨1, 9⟩⟩, ⟨⟨.variable, "y"⟩, ⟨1, 12⟩⟩, ⟨.opening, ⟨1, 15⟩⟩,
        ⟨.closing, ⟨1, 17⟩⟩, ⟨.closing, ⟨1, 19⟩⟩] := by decide +kernel
  have hspare : lexemes "IF :x [ ] ]" = .ok
      [⟨.ofWord "IF", ⟨1, 1⟩⟩, ⟨⟨.variable, "x"⟩, ⟨1, 4⟩⟩, ⟨.opening, ⟨1, 7⟩⟩,
        ⟨.closing, ⟨1, 9⟩⟩, ⟨.closing, ⟨1, 11⟩⟩] := by decide +kernel
  obtain ⟨hlists, htexts⟩ := brackets_agree
  refine ⟨⟨_, hnested, rfl, ?_⟩, ?_⟩
  · have hcheck := (htexts _).1 _ hnested
    obtain ⟨n, hn, hpartner⟩ := (hlists _ hcheck).1 2 .opening rfl rfl
    obtain rfl : 4 = n := Option.some.inj hn
    exact hpartner
  · have hbrackets : ¬ Balanced [.ofWord "IF", ⟨.variable, "x"⟩, .opening, .closing, .closing] := by
      decide
    obtain ⟨e, he, hfault⟩ := (htexts _).2.2 _ hspare hbrackets 9
    exact ⟨_, e, hspare, hbrackets, he, hfault⟩

end TurtleGraphics
