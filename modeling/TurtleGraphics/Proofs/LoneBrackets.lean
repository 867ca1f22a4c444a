import TurtleGraphics.Proofs.BracketFaults

/-!
# TurtleGraphics.Proofs.LoneBrackets

Which of the brackets without a partner the check of a text reports.

* `Partners.append_left`, `Partners.append_right` : partners are partners in a longer list too.
* `ClosersPaired`  : every closing bracket has its partner.
* `FirstUnmatched`, `LastUnclosed` : the first closing bracket without one, the last opening one.
* `StillOpen`      : the places of the brackets that some tokens leave open.
* `BracketFault`   : the bracket that a list of tokens is refused for.
* `unbalanced_eq_some_iff` : the check reports that one.

If every closing bracket has its partner, an opening one without a partner is open to the end, and
the last of these is the innermost.
-/

namespace TurtleGraphics

namespace Partners

variable {ts us : List Token} {i j : Nat}

theorem append_right (h : Partners ts i j) (us : List Token) : Partners (ts ++ us) i j := by
  obtain ⟨before, inner, after, opener, closer, rfl, hi, hj, ho, hinner, hc⟩ := h
  exact ⟨before, inner, after ++ us, opener, closer, by simp, hi, hj, ho, hinner, hc⟩

theorem append_left (h : Partners us i j) (ts : List Token) :
    Partners (ts ++ us) (ts.length + i) (ts.length + j) := by
  obtain ⟨before, inner, after, opener, closer, rfl, rfl, rfl, ho, hinner, hc⟩ := h
  exact ⟨ts ++ before, inner, after, opener, closer, by simp, by simp, by omega, ho, hinner, hc⟩

end Partners

/-- Every closing bracket has its partner. -/
def ClosersPaired (ts : List Token) : Prop :=
  ∀ j t, ts[j]? = some t → t.kind = .closeBlock → ∃ i, Partners ts i j

/-- The first closing bracket that has no partner. -/
structure FirstUnmatched (ts : List Token) (j : Nat) : Prop where
  closes : ∃ t, ts[j]? = some t ∧ t.kind = .closeBlock
  alone : ∀ i, ¬ Partners ts i j
  first : ∀ k < j, ∀ t, ts[k]? = some t → t.kind = .closeBlock → ∃ i, Partners ts i k

/-- The last opening bracket that has no partner. -/
structure LastUnclosed (ts : List Token) (i : Nat) : Prop where
  opens : ∃ t, ts[i]? = some t ∧ t.kind = .openBlock
  alone : ∀ j, ¬ Partners ts i j
  last : ∀ k > i, ∀ t, ts[k]? = some t → t.kind = .openBlock → ∃ j, Partners ts k j

namespace ClosersPaired

theorem append {ts us : List Token} (h : ClosersPaired ts) (hu : ClosersPaired us) :
    ClosersPaired (ts ++ us) := by
  intro j t hj hc
  by_cases hlt : j < ts.length
  · rw [List.getElem?_append_left hlt] at hj
    obtain ⟨i, hi⟩ := h j t hj hc
    exact ⟨i, hi.append_right us⟩
  · rw [List.getElem?_append_right (Nat.le_of_not_lt hlt)] at hj
    obtain ⟨i, hi⟩ := hu _ t hj hc
    have hpair := hi.append_left ts
    rw [Nat.add_sub_cancel' (Nat.le_of_not_lt hlt)] at hpair
    exact ⟨_, hpair⟩

theorem singleton {t : Token} (h : t.kind ≠ .closeBlock) : ClosersPaired [t] := by
  intro j u hj hc
  obtain rfl : u = t := by simpa using List.mem_of_getElem? hj
  exact absurd hc h

theorem block {opener closer : Token} {inner : List Token} (ho : opener.kind = .openBlock)
    (hc : closer.kind = .closeBlock) (hbalanced : Balanced inner) (h : ClosersPaired inner) :
    ClosersPaired (opener :: (inner ++ [closer])) := by
  intro j t hj ht
  have hopen : ClosersPaired (opener :: inner) :=
    append (singleton (by simp [ho])) h
  by_cases hlt : j < (opener :: inner).length
  · rw [← List.cons_append, List.getElem?_append_left hlt] at hj
    obtain ⟨i, hi⟩ := hopen j t hj ht
    exact ⟨i, hi.append_right [closer]⟩
  · have hle : j < (opener :: (inner ++ [closer])).length :=
      (List.getElem?_eq_some_iff.mp hj).1
    refine ⟨0, [], inner, [], opener, closer, rfl, rfl, ?_, ho, hbalanced, hc⟩
    simp only [List.length_cons, List.length_append, List.length_nil] at hlt hle
    omega

end ClosersPaired

namespace Balanced

theorem closersPaired {ts : List Token} (h : Balanced ts) : ClosersPaired ts := by
  induction h with
  | nil => intro j t hj; simp at hj
  | @plain t ts ht _ ih =>
    refine .append (.singleton fun hc => ?_) ih
    simp [Token.isBracket, hc] at ht
  | @block opener closer inner rest ho hc hinner _ ihi ihr =>
    have hall := (ClosersPaired.block ho hc hinner ihi).append ihr
    simpa using hall

/-- A balanced list leaves no bracket open that could be a partner for what follows. -/
theorem not_open {before inner : List Token} {opener : Token}
    (h : Balanced (before ++ opener :: inner)) (ho : opener.kind = .openBlock) :
    ¬ Balanced inner := by
  intro hinner
  obtain ⟨block, closer, rest, rfl, hblock, hc⟩ := h.blocksClosed.of_append.1 ho
  exact (hblock.of_append hinner).not_close hc

theorem firstUnmatched {before : List Token} (h : Balanced before) {closer : Token}
    (hc : closer.kind = .closeBlock) (after : List Token) :
    FirstUnmatched (before ++ closer :: after) before.length := by
  refine ⟨⟨closer, by simp, hc⟩, ?_, ?_⟩
  · rintro i ⟨outer, inner, rest, opener, closer', hts, rfl, hlength, ho, hinner, -⟩
    have hsplit : before ++ closer :: after = (outer ++ opener :: inner) ++ closer' :: rest := by
      rw [hts]
      simp
    obtain ⟨rfl, -⟩ := List.append_inj hsplit (by simp; omega)
    exact h.not_open ho hinner
  · intro k hk t ht hclose
    rw [List.getElem?_append_left hk] at ht
    obtain ⟨i, hi⟩ := h.closersPaired k t ht hclose
    exact ⟨i, hi.append_right _⟩

theorem lastUnclosed {after : List Token} (h : Balanced after) {opener : Token}
    (ho : opener.kind = .openBlock) (before : List Token) :
    LastUnclosed (before ++ opener :: after) before.length := by
  refine ⟨⟨opener, by simp, ho⟩, ?_, ?_⟩
  · rintro j ⟨before', inner, rest, opener', closer, hts, hlength, -, -, hinner, hc⟩
    obtain ⟨-, htail⟩ := List.append_inj hts hlength.symm
    obtain rfl := (List.cons.inj htail).2
    exact (hinner.of_append h).not_close hc
  · intro k hk t ht hopen
    have hsplit : before ++ opener :: after = (before ++ [opener]) ++ after := by simp
    have hle : (before ++ [opener]).length ≤ k := by simpa using Nat.succ_le_of_lt hk
    rw [hsplit, List.getElem?_append_right hle] at ht
    obtain ⟨n, -, hpartner⟩ := closingOffset?_partner h.blocksClosed ht hopen
    have hpair := ((hpartner _).mpr rfl).append_left (before ++ [opener])
    rw [← hsplit, Nat.add_sub_cancel' hle] at hpair
    exact ⟨_, hpair⟩

end Balanced

/-! ## What is open -/

/-- The places of the brackets that some tokens leave open, the innermost first. -/
inductive StillOpen : List Place → List Lexeme → Prop where
  | none {ls : List Lexeme} : Balanced (tokensOf ls) → StillOpen [] ls
  | more {opened : List Place} {ls inner : List Lexeme} {l : Lexeme} : StillOpen opened ls →
      l.token.kind = .openBlock → Balanced (tokensOf inner) →
      StillOpen (l.place :: opened) (ls ++ l :: inner)

namespace StillOpen

variable {opened : List Place} {ls : List Lexeme} {l : Lexeme}

theorem append (h : StillOpen opened ls) {more : List Lexeme} (hmore : Balanced (tokensOf more)) :
    StillOpen opened (ls ++ more) := by
  cases h with
  | none hls =>
    refine .none ?_
    rw [tokensOf, List.map_append]
    exact hls.append hmore
  | @more opened ls inner l hls ho hinner =>
    rw [List.append_assoc, List.cons_append]
    refine .more hls ho ?_
    rw [tokensOf, List.map_append]
    exact hinner.append hmore

theorem opening (h : StillOpen opened ls) (ho : l.token.kind = .openBlock) :
    StillOpen (l.place :: opened) (ls ++ [l]) :=
  .more h ho .nil

theorem closing {p : Place} (h : StillOpen (p :: opened) ls) (hc : l.token.kind = .closeBlock) :
    StillOpen opened (ls ++ [l]) := by
  cases h with
  | @more _ ls inner opener hls ho hinner =>
    rw [List.append_assoc, List.cons_append]
    refine hls.append ?_
    simpa [tokensOf] using Balanced.block ho hc hinner .nil

theorem closersPaired (h : StillOpen opened ls) : ClosersPaired (tokensOf ls) := by
  induction h with
  | none hls => exact hls.closersPaired
  | @more opened ls inner l _ ho hinner ih =>
    have hopener : ClosersPaired [l.token] := .singleton (by simp [ho])
    simpa [tokensOf] using ih.append (hopener.append hinner.closersPaired)

end StillOpen

/-! ## The bracket at fault -/

/-- The bracket that a list of tokens is refused for: the first closing one without a partner, or
if all of these have partners the last opening one without. -/
inductive BracketFault (ls : List Lexeme) : LexError → Prop where
  | unmatched {j : Nat} {l : Lexeme} : FirstUnmatched (tokensOf ls) j → ls[j]? = some l →
      BracketFault ls ⟨.unmatchedClose, l.place⟩
  | unclosed {i : Nat} {l : Lexeme} : ClosersPaired (tokensOf ls) →
      LastUnclosed (tokensOf ls) i → ls[i]? = some l → BracketFault ls ⟨.unclosedOpen, l.place⟩

theorem FirstUnmatched.not_closersPaired {ts : List Token} {j : Nat} (h : FirstUnmatched ts j) :
    ¬ ClosersPaired ts := by
  intro hpaired
  obtain ⟨t, ht, hc⟩ := h.closes
  obtain ⟨i, hi⟩ := hpaired j t ht hc
  exact h.alone i hi

theorem FirstUnmatched.unique {ts : List Token} {j k : Nat} (hj : FirstUnmatched ts j)
    (hk : FirstUnmatched ts k) : j = k := by
  have hle : ∀ {m n}, FirstUnmatched ts m → FirstUnmatched ts n → ¬ m < n := by
    intro m n hm hn hlt
    obtain ⟨t, ht, hc⟩ := hm.closes
    obtain ⟨i, hi⟩ := hn.first m hlt t ht hc
    exact hm.alone i hi
  exact Nat.le_antisymm (Nat.le_of_not_lt (hle hk hj)) (Nat.le_of_not_lt (hle hj hk))

theorem LastUnclosed.unique {ts : List Token} {i k : Nat} (hi : LastUnclosed ts i)
    (hk : LastUnclosed ts k) : i = k := by
  have hle : ∀ {m n}, LastUnclosed ts m → LastUnclosed ts n → ¬ m < n := by
    intro m n hm hn hlt
    obtain ⟨t, ht, ho⟩ := hn.opens
    obtain ⟨j, hj⟩ := hm.last n hlt t ht ho
    exact hn.alone j hj
  exact Nat.le_antisymm (Nat.le_of_not_lt (hle hk hi)) (Nat.le_of_not_lt (hle hi hk))

theorem BracketFault.unique {ls : List Lexeme} {e f : LexError} (he : BracketFault ls e)
    (hf : BracketFault ls f) : e = f := by
  cases he with
  | unmatched hj hl =>
    cases hf with
    | unmatched hk hm =>
      obtain rfl := hj.unique hk
      rw [Option.some.inj (hl.symm.trans hm)]
    | unclosed hpaired _ _ => exact absurd hpaired hj.not_closersPaired
  | unclosed hpaired hi hl =>
    cases hf with
    | unmatched hk _ => exact absurd hpaired hk.not_closersPaired
    | unclosed _ hk hm =>
      obtain rfl := hi.unique hk
      rw [Option.some.inj (hl.symm.trans hm)]

theorem BracketFault.not_balanced {ls : List Lexeme} {e : LexError} (h : BracketFault ls e) :
    ¬ Balanced (tokensOf ls) := by
  intro hbalanced
  cases h with
  | unmatched hj _ => exact hj.not_closersPaired hbalanced.closersPaired
  | unclosed _ hi _ =>
    obtain ⟨t, ht, ho⟩ := hi.opens
    obtain ⟨n, -, hpartner⟩ := closingOffset?_partner hbalanced.blocksClosed ht ho
    exact hi.alone _ ((hpartner _).mpr rfl)

/-- The check keeps the places of the brackets that what it has gone over leaves open, so it fails
for the bracket at fault. -/
theorem bracketFault_of_unbalanced {opened : List Place} {seen ls : List Lexeme}
    (hseen : StillOpen opened seen) {e : LexError} (h : unbalanced opened ls = some e) :
    BracketFault (seen ++ ls) e := by
  induction ls generalizing opened seen with
  | nil =>
    cases hseen with
    | none _ => cases h
    | @more opened seen inner l hopened ho hinner =>
      cases h
      have hlast : LastUnclosed (tokensOf (seen ++ l :: inner)) seen.length := by
        simpa [tokensOf] using hinner.lastUnclosed ho (tokensOf seen)
      rw [List.append_nil]
      exact .unclosed (hopened.more ho hinner).closersPaired hlast (by simp)
  | cons l ls ih =>
    have hsplit : seen ++ l :: ls = (seen ++ [l]) ++ ls := by simp
    by_cases hb : l.token.isBracket = true
    · obtain ho | hc := Token.kind_of_isBracket hb
      · rw [unbalanced_open ho] at h
        rw [hsplit]
        exact ih (hseen.opening ho) h
      · cases hseen with
        | none hbalanced =>
          simp only [unbalanced, hc, Option.some.injEq] at h
          subst h
          have hfirst : FirstUnmatched (tokensOf (seen ++ l :: ls)) seen.length := by
            simpa [tokensOf] using hbalanced.firstUnmatched hc (tokensOf ls)
          exact .unmatched hfirst (by simp)
        | more hopened ho hinner =>
          rw [unbalanced_close hc] at h
          rw [hsplit]
          exact ih ((hopened.more ho hinner).closing hc) h
    · have hplain : l.token.isBracket = false := by simpa using hb
      rw [unbalanced_plain hplain] at h
      rw [hsplit]
      exact ih (hseen.append (.plain hplain .nil)) h

/-- The check of the brackets reports the one bracket at fault. -/
theorem unbalanced_eq_some_iff {ls : List Lexeme} {e : LexError} :
    unbalanced [] ls = some e ↔ BracketFault ls e := by
  have hfault : ∀ {f}, unbalanced [] ls = some f → BracketFault ls f := by
    intro f hf
    have hnone : StillOpen [] [] := .none .nil
    have hall := bracketFault_of_unbalanced hnone hf
    rwa [List.nil_append] at hall
  refine ⟨hfault, fun h => ?_⟩
  cases hcheck : unbalanced [] ls with
  | none => exact absurd (unbalanced_eq_none_iff.mp hcheck) h.not_balanced
  | some f => rw [(hfault hcheck).unique h]

end TurtleGraphics
