import TurtleGraphics.Syntax.ReadStmt
import TurtleGraphics.Token.Scan

/-!
# TurtleGraphics.Proofs.Brackets

Lists of tokens whose brackets pair up.

* `Balanced`                       : every opening bracket has its closing one, and the reverse.
* `Balanced.closingOffset?_append` : the search for the end of a block steps over a balanced list.
* `Balanced.unbalanced_append`     : so does the check of the brackets of a text.
-/

namespace TurtleGraphics

/-- Whether a token opens or closes a block. -/
def Token.isBracket (t : Token) : Bool :=
  match t.kind with
  | .openBlock => true
  | .closeBlock => true
  | .word => false
  | .quoted => false
  | .variable => false

/-- Every bracket has its partner, and blocks do not cross. -/
inductive Balanced : List Token → Prop where
  | nil : Balanced []
  | plain {t : Token} {ts : List Token} : t.isBracket = false → Balanced ts → Balanced (t :: ts)
  | block {opener closer : Token} {inner rest : List Token} :
      opener.kind = .openBlock → closer.kind = .closeBlock → Balanced inner → Balanced rest →
      Balanced (opener :: (inner ++ closer :: rest))

namespace Balanced

theorem append {ts us : List Token} (h : Balanced ts) (hu : Balanced us) :
    Balanced (ts ++ us) := by
  induction h with
  | nil => exact hu
  | plain ht _ ih => exact .plain ht ih
  | block ho hc hi _ _ ih =>
    simp only [List.cons_append, List.append_assoc]
    exact .block ho hc hi ih

theorem of_plain {ts : List Token} (h : ∀ t ∈ ts, t.isBracket = false) : Balanced ts := by
  induction ts with
  | nil => exact .nil
  | cons t ts ih =>
    exact .plain (h t List.mem_cons_self) (ih fun u hu => h u (List.mem_cons_of_mem _ hu))

end Balanced

/-! ## The end of a block -/

theorem closingOffset?_plain {t : Token} (h : t.isBracket = false) (depth : Nat)
    (ts : List Token) :
    closingOffset? depth (t :: ts) = (closingOffset? depth ts).map (· + 1) := by
  cases hk : t.kind <;> simp_all [Token.isBracket, closingOffset?]

theorem closingOffset?_open {t : Token} (h : t.kind = .openBlock) (depth : Nat)
    (ts : List Token) :
    closingOffset? depth (t :: ts) = (closingOffset? (depth + 1) ts).map (· + 1) := by
  simp [closingOffset?, h]

theorem closingOffset?_close {t : Token} (h : t.kind = .closeBlock) (depth : Nat)
    (ts : List Token) :
    closingOffset? (depth + 1) (t :: ts) = (closingOffset? depth ts).map (· + 1) := by
  simp [closingOffset?, h]

theorem closingOffset?_close_zero {t : Token} (h : t.kind = .closeBlock) (ts : List Token) :
    closingOffset? 0 (t :: ts) = some 0 := by
  simp [closingOffset?, h]

/-- The bracket that closes a block inside of which others are open is looked for behind any
balanced list. -/
theorem Balanced.closingOffset?_append {ts : List Token} (h : Balanced ts) :
    ∀ (depth : Nat) (rest : List Token),
      closingOffset? depth (ts ++ rest) = (closingOffset? depth rest).map (· + ts.length) := by
  induction h with
  | nil => intro depth rest; simp
  | plain ht _ ih =>
    intro depth rest
    rw [List.cons_append, closingOffset?_plain ht, ih, Option.map_map]
    rfl
  | block ho hc _ _ ihi ihr =>
    intro depth rest
    rw [List.cons_append, closingOffset?_open ho, List.append_assoc, List.cons_append, ihi,
      closingOffset?_close hc, ihr]
    simp only [Option.map_map]
    congr 1
    funext n
    simp only [Function.comp_apply, List.length_cons, List.length_append]
    omega

/-- What is found as the end of a block is a closing bracket at that distance. -/
theorem closingOffset?_eq_some {depth n : Nat} {ts : List Token}
    (h : closingOffset? depth ts = some n) :
    ∃ (inner : List Token) (closer : Token) (rest : List Token),
      ts = inner ++ closer :: rest ∧ inner.length = n ∧ closer.kind = .closeBlock := by
  induction ts generalizing depth n with
  | nil => cases h
  | cons t ts ih =>
    have step : ∀ d, (closingOffset? d ts).map (· + 1) = some n →
        ∃ (inner : List Token) (closer : Token) (rest : List Token),
          t :: ts = inner ++ closer :: rest ∧ inner.length = n ∧ closer.kind = .closeBlock := by
      intro d hd
      obtain ⟨k, hk, rfl⟩ := Option.map_eq_some_iff.mp hd
      obtain ⟨inner, closer, rest, rfl, rfl, hc⟩ := ih hk
      exact ⟨t :: inner, closer, rest, rfl, rfl, hc⟩
    by_cases hb : t.isBracket = false
    · rw [closingOffset?_plain hb] at h
      exact step depth h
    · by_cases ho : t.kind = .openBlock
      · rw [closingOffset?_open ho] at h
        exact step (depth + 1) h
      · have hc : t.kind = .closeBlock := by
          cases hk : t.kind <;> simp_all [Token.isBracket]
        cases depth with
        | zero =>
          rw [closingOffset?_close_zero hc] at h
          cases h
          exact ⟨[], t, ts, rfl, rfl, hc⟩
        | succ outer =>
          rw [closingOffset?_close hc] at h
          exact step outer h

/-! ## The check of a text -/

theorem unbalanced_plain {l : Lexeme} (h : l.token.isBracket = false) (opened : List Place)
    (ls : List Lexeme) : unbalanced opened (l :: ls) = unbalanced opened ls := by
  cases opened <;> cases hk : l.token.kind <;> simp_all [Token.isBracket, unbalanced]

theorem unbalanced_open {l : Lexeme} (h : l.token.kind = .openBlock) (opened : List Place)
    (ls : List Lexeme) : unbalanced opened (l :: ls) = unbalanced (l.place :: opened) ls := by
  cases opened <;> simp [unbalanced, h]

theorem unbalanced_close {l : Lexeme} (h : l.token.kind = .closeBlock) (p : Place)
    (opened : List Place) (ls : List Lexeme) :
    unbalanced (p :: opened) (l :: ls) = unbalanced opened ls := by
  simp [unbalanced, h]

/-- The check of the brackets of a text steps over a balanced part of it. -/
theorem Balanced.unbalanced_append {ts : List Token} (h : Balanced ts) :
    ∀ (opened : List Place) (ls rest : List Lexeme), ls.map Lexeme.token = ts →
      unbalanced opened (ls ++ rest) = unbalanced opened rest := by
  induction h with
  | nil =>
    intro opened ls rest hl
    rw [List.map_eq_nil_iff.mp hl, List.nil_append]
  | plain ht _ ih =>
    intro opened ls rest hl
    obtain ⟨l, ls, rfl, rfl, hls⟩ := List.map_eq_cons_iff.mp hl
    rw [List.cons_append, unbalanced_plain ht, ih opened ls rest hls]
  | block ho hc _ _ ihi ihr =>
    intro opened ls rest hl
    obtain ⟨l, ls, rfl, rfl, hls⟩ := List.map_eq_cons_iff.mp hl
    obtain ⟨inner, more, rfl, hi, hm⟩ := List.map_eq_append_iff.mp hls
    obtain ⟨c, us, rfl, rfl, hu⟩ := List.map_eq_cons_iff.mp hm
    rw [List.cons_append, unbalanced_open ho, List.append_assoc, List.cons_append,
      ihi _ _ _ hi, unbalanced_close hc, ihr _ _ _ hu]

end TurtleGraphics
