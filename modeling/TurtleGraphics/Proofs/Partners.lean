import TurtleGraphics.Proofs.Brackets

/-!
# TurtleGraphics.Proofs.Partners

Each bracket and its partner.

The brackets of a script are looked at twice. The check of a text goes over all tokens once, with
the brackets still open on a stack; the parser looks from one opening bracket on for the bracket
that closes its block, with a counter. Both are compared with `Balanced` here.

* `unbalanced_eq_none_iff` : the check passes just the balanced lists.
* `Closes`                 : how many of the blocks open before them some tokens close.
* `Balanced.of_append`     : what stands behind a balanced part of a balanced list is balanced.
* `BlocksClosed`           : behind every opening bracket stand a balanced list and a closing one.
* `closingOffset?_eq_some_iff` : the parser finds the one closing bracket with a balanced list
  before it.
-/

namespace TurtleGraphics

/-! ## The check of a text -/

/-- The tokens close `n` blocks that were open before them, and all that they open themselves. -/
def Closes : Nat → List Token → Prop
  | 0, ts => Balanced ts
  | n + 1, ts => ∃ (inner : List Token) (closer : Token) (rest : List Token),
      ts = inner ++ closer :: rest ∧ Balanced inner ∧ closer.kind = .closeBlock ∧ Closes n rest

namespace Closes

variable {n : Nat} {t : Token} {ts : List Token}

theorem plain (ht : t.isBracket = false) (h : Closes n ts) : Closes n (t :: ts) := by
  cases n with
  | zero => exact .plain ht h
  | succ n =>
    obtain ⟨inner, closer, rest, rfl, hinner, hclose, hrest⟩ := h
    exact ⟨t :: inner, closer, rest, rfl, .plain ht hinner, hclose, hrest⟩

theorem opened (ht : t.kind = .openBlock) (h : Closes (n + 1) ts) : Closes n (t :: ts) := by
  obtain ⟨inner, closer, rest, rfl, hinner, hclose, hrest⟩ := h
  cases n with
  | zero => exact .block ht hclose hinner hrest
  | succ n =>
    obtain ⟨inner', closer', rest', rfl, hinner', hclose', hrest'⟩ := hrest
    exact ⟨t :: (inner ++ closer :: inner'), closer', rest', by simp,
      .block ht hclose hinner hinner', hclose', hrest'⟩

theorem closed (ht : t.kind = .closeBlock) (h : Closes n ts) : Closes (n + 1) (t :: ts) :=
  ⟨[], t, ts, rfl, .nil, ht, h⟩

end Closes

theorem Token.kind_of_isBracket {t : Token} (h : t.isBracket = true) :
    t.kind = .openBlock ∨ t.kind = .closeBlock := by
  cases hk : t.kind <;> simp_all [Token.isBracket]

theorem closes_of_unbalanced {opened : List Place} {ls : List Lexeme}
    (h : unbalanced opened ls = none) : Closes opened.length (ls.map Lexeme.token) := by
  induction ls generalizing opened with
  | nil =>
    cases opened with
    | nil => exact .nil
    | cons p opened => cases h
  | cons l ls ih =>
    by_cases hb : l.token.isBracket = true
    · obtain ho | hc := Token.kind_of_isBracket hb
      · rw [unbalanced_open ho] at h
        exact .opened ho (ih h)
      · cases opened with
        | nil => simp [unbalanced, hc] at h
        | cons p opened =>
          rw [unbalanced_close hc] at h
          exact .closed hc (ih h)
    · rw [unbalanced_plain (by simpa using hb)] at h
      exact .plain (by simpa using hb) (ih h)

/-- The check of the brackets passes exactly the lists in which they pair up. -/
theorem unbalanced_eq_none_iff {ls : List Lexeme} :
    unbalanced [] ls = none ↔ Balanced (ls.map Lexeme.token) := by
  constructor
  · exact closes_of_unbalanced
  · intro h
    have hcheck := h.unbalanced_append [] ls [] rfl
    rwa [List.append_nil] at hcheck

/-- The check of the brackets does not look at where the tokens stand. -/
theorem token_map_start (ts : List Token) :
    (ts.map fun t => (⟨t, .start⟩ : Lexeme)).map Lexeme.token = ts := by
  simp [Function.comp_def]

instance (ts : List Token) : Decidable (Balanced ts) :=
  decidable_of_iff (unbalanced [] (ts.map fun t => ⟨t, .start⟩) = none)
    (by rw [unbalanced_eq_none_iff, token_map_start])

/-- What stands behind a balanced part of a balanced list is balanced. -/
theorem Balanced.of_append {ts us : List Token} (h : Balanced ts) (hall : Balanced (ts ++ us)) :
    Balanced us := by
  have hcheck := h.unbalanced_append [] (ts.map fun t => ⟨t, .start⟩)
    (us.map fun t => ⟨t, .start⟩) (token_map_start ts)
  rw [← List.map_append, unbalanced_eq_none_iff.mpr (by rwa [token_map_start])] at hcheck
  have hrest := unbalanced_eq_none_iff.mp hcheck.symm
  rwa [token_map_start] at hrest

theorem Balanced.not_close {t : Token} {ts : List Token} (h : Balanced (t :: ts)) :
    t.kind ≠ .closeBlock := by
  intro hc
  cases h with
  | plain ht _ => simp [Token.isBracket, hc] at ht
  | block ho _ _ _ => simp [ho] at hc

/-! ## The end of a block -/

/-- Behind every opening bracket there is a closing one, with a balanced list between them. -/
def BlocksClosed : List Token → Prop
  | [] => True
  | t :: ts =>
    (t.kind = .openBlock → ∃ (inner : List Token) (closer : Token) (rest : List Token),
      ts = inner ++ closer :: rest ∧ Balanced inner ∧ closer.kind = .closeBlock) ∧ BlocksClosed ts

theorem BlocksClosed.of_append {ts us : List Token} (h : BlocksClosed (ts ++ us)) :
    BlocksClosed us := by
  induction ts with
  | nil => exact h
  | cons t ts ih => exact ih h.2

theorem Balanced.blocksClosed_append {ts us : List Token} (h : Balanced ts)
    (hu : BlocksClosed us) : BlocksClosed (ts ++ us) := by
  induction h generalizing us with
  | nil => exact hu
  | plain ht _ ih =>
    refine ⟨fun ho => ?_, ih hu⟩
    simp [Token.isBracket, ho] at ht
  | @block opener closer inner rest ho hc hinner _ ihi ihr =>
    rw [List.cons_append, List.append_assoc, List.cons_append]
    refine ⟨fun _ => ⟨inner, closer, rest ++ us, rfl, hinner, hc⟩, ihi ⟨fun hoc => ?_, ihr hu⟩⟩
    rw [hc] at hoc
    cases hoc

theorem Balanced.blocksClosed {ts : List Token} (h : Balanced ts) : BlocksClosed ts := by
  have hclosed : BlocksClosed (ts ++ []) := h.blocksClosed_append trivial
  rwa [List.append_nil] at hclosed

theorem closingOffset?_of_balanced {inner : List Token} {closer : Token} (hinner : Balanced inner)
    (hc : closer.kind = .closeBlock) (rest : List Token) :
    closingOffset? 0 (inner ++ closer :: rest) = some inner.length := by
  rw [hinner.closingOffset?_append, closingOffset?_close_zero hc]
  simp

/-- Where opened blocks are closed, the end of a block is the closing bracket that has a balanced
list before it, and no other. -/
theorem closingOffset?_eq_some_iff {opener : Token} {ts : List Token}
    (h : BlocksClosed (opener :: ts)) (ho : opener.kind = .openBlock) {n : Nat} :
    closingOffset? 0 ts = some n ↔
      ∃ (inner : List Token) (closer : Token) (rest : List Token), ts = inner ++ closer :: rest ∧
        inner.length = n ∧ Balanced inner ∧ closer.kind = .closeBlock := by
  constructor
  · intro hn
    obtain ⟨inner, closer, rest, rfl, hinner, hc⟩ := h.1 ho
    rw [closingOffset?_of_balanced hinner hc] at hn
    exact ⟨inner, closer, rest, rfl, Option.some.inj hn, hinner, hc⟩
  · rintro ⟨inner, closer, rest, rfl, rfl, hinner, hc⟩
    exact closingOffset?_of_balanced hinner hc rest

/-- A balanced list does not reach beyond a closing bracket that has one before it. -/
theorem Balanced.length_le_of_append {inner used outer rest : List Token} {closer : Token}
    (hinner : Balanced inner) (hc : closer.kind = .closeBlock) (hused : Balanced used)
    (h : used ++ rest = inner ++ closer :: outer) : used.length ≤ inner.length := by
  obtain ⟨more, rfl, -⟩ | ⟨more, rfl, hrest⟩ := List.append_eq_append_iff.mp h
  · simp
  · cases more with
    | nil => simp
    | cons t more =>
      obtain ⟨rfl, -⟩ := List.cons.inj hrest
      exact absurd hc (hinner.of_append hused).not_close

end TurtleGraphics
