import TurtleGraphics.Proofs.ReadComplete

/-!
# TurtleGraphics.Proofs.ReadBounds

Whatever the tokens are, a parse neither asks for one beyond their end nor finds a statement that
crosses the end of its block.

The parser finds out where a block or a body ends before it reads what stands inside, and reads the
statements there as if all the tokens to the end of the script were theirs. That none of them goes
too far follows from what has been read then: a block ends at the first closing bracket that a
balanced list does not explain, a body at the first `END`, and a statement that has been read has
balanced tokens and no `END` among them.

* `Fence`            : how the end of a range of tokens was found.
* `Fence.rest`       : a statement stops before the end, which is the end of what is left as well.
* `Stop.Proper`      : the stops that a reader can come to.
* `sequence_proper`, `topSequence_proper` : reading the statements of a range.
* `parse_proper`     : a parse succeeds, finds a fault, or meets its limit.
-/

namespace TurtleGraphics

/-! ## Ends of ranges -/

/-- The next `n` tokens are all there are, or reach up to the bracket that closes their block or to
the first `END`. -/
inductive Fence : Nat → List Token → Prop where
  | script (ts : List Token) : Fence ts.length ts
  | block {n : Nat} {ts : List Token} : closingOffset? 0 ts = some n → Fence n ts
  | body {n : Nat} {ts : List Token} : ts.findIdx? isEnd = some n → Fence n ts

namespace Fence

theorem length_le {n : Nat} {ts : List Token} (h : Fence n ts) : n ≤ ts.length := by
  cases h with
  | script => exact Nat.le_refl _
  | block hn =>
    obtain ⟨inner, closer, rest, rfl, rfl, -⟩ := closingOffset?_eq_some hn
    simp
  | body hn =>
    obtain ⟨hlt, -⟩ := List.findIdx?_eq_some_iff_getElem.mp hn
    exact Nat.le_of_lt hlt

/-- Tokens in front of a range with balanced brackets and without `END` belong to it, and what is
left of it ends where the range did. -/
theorem rest {n : Nat} {used rest : List Token} (h : Fence n (used ++ rest))
    (hbalanced : Balanced used) (hend : ∀ t ∈ used, isEnd t = false) :
    used.length ≤ n ∧ Fence (n - used.length) rest := by
  cases h with
  | script =>
    rw [List.length_append, Nat.add_sub_cancel_left]
    exact ⟨Nat.le_add_right _ _, .script rest⟩
  | block hn =>
    rw [hbalanced.closingOffset?_append] at hn
    obtain ⟨k, hk, rfl⟩ := Option.map_eq_some_iff.mp hn
    rw [Nat.add_sub_cancel]
    exact ⟨Nat.le_add_left _ _, .block hk⟩
  | body hn =>
    rw [List.findIdx?_append, List.findIdx?_eq_none_iff.mpr hend, Option.none_or] at hn
    obtain ⟨k, hk, rfl⟩ := Option.map_eq_some_iff.mp hn
    rw [Nat.add_sub_cancel]
    exact ⟨Nat.le_add_left _ _, .body hk⟩

end Fence

/-! ## Proper stops -/

/-- A stop that a reader can come to when it has been given so many levels and these tokens: a fault
other than that a statement runs past its end, or the limit if there are tokens for as many levels.
-/
def Stop.Proper (limit : Nat) (ts : List Token) : Stop → Prop
  | .fault why _ => why ≠ .runsPastEnd
  | .beyondEnd => False
  | .tooDeep => limit ≤ ts.length

/-- A reader that goes down a level takes a token for it. -/
theorem Stop.Proper.mono {limit limit' : Nat} {ts ts' : List Token} {s : Stop}
    (h : s.Proper limit' ts') (hle : limit + ts'.length ≤ limit' + ts.length) :
    s.Proper limit ts := by
  cases s with
  | fault why rest => exact h
  | beyondEnd => exact h
  | tooDeep =>
    simp only [Stop.Proper] at h ⊢
    omega

/-- The reading comes to proper stops only. -/
def Proper {α : Type} (limit : Nat) (ts : List Token) (r : Except Stop α) : Prop :=
  ∀ s, r = .error s → s.Proper limit ts

namespace Proper

variable {α β : Type} {limit limit' : Nat} {ts ts' : List Token}

theorem ok (a : α) : Proper limit ts (.ok a) := by
  rintro s ⟨⟩

theorem fault {why : ParseFault} (h : why ≠ .runsPastEnd) (rest : List Token) :
    Proper limit ts (.error (.fault why rest) : Except Stop α) := by
  rintro s ⟨⟩
  exact h

theorem zero {r : Except Stop α} (h : r = .error .tooDeep) : Proper 0 ts r := by
  rintro s hs
  cases h.symm.trans hs
  exact Nat.zero_le _

/-- A reader that fails with another one. -/
theorem error {r : Except Stop α} {s : Stop} (h : Proper limit' ts' r) (hs : r = .error s)
    (hle : limit + ts'.length ≤ limit' + ts.length) :
    Proper limit ts (.error s : Except Stop β) := by
  rintro _ ⟨⟩
  exact (h s hs).mono hle

theorem mono {r : Except Stop α} (h : Proper limit' ts' r)
    (hle : limit + ts'.length ≤ limit' + ts.length) : Proper limit ts r :=
  fun s hs => (h s hs).mono hle

end Proper

/-! ## Expressions -/

namespace Expr

theorem ofLiteral_ne_runsPastEnd {t : Token} {why : ParseFault} (h : ofLiteral t = .error why) :
    why ≠ .runsPastEnd := by
  simp only [ofLiteral] at h
  split at h
  · cases h
  · split at h
    · cases h
    · split at h
      · cases h; rintro ⟨⟩
      · split at h
        · cases h
        · cases h; rintro ⟨⟩

theorem readPair_proper {limit : Nat} (hread : ∀ ts, Proper limit ts (read limit ts))
    (combine : Expr → Expr → Expr) (ts : List Token) :
    Proper limit ts (match read limit ts with
      | .error s => .error s
      | .ok (l, ts₁) =>
        match read limit ts₁ with
        | .error s => .error s
        | .ok (r, ts₂) => .ok (combine l r, ts₂)) := by
  split
  · rename_i hl
    exact (hread ts).error hl (Nat.le_refl _)
  · rename_i hl
    have hshorter := length_lt_of_read hl
    split
    · rename_i hr
      exact (hread _).error hr (by omega)
    · exact .ok _

theorem read_proper (limit : Nat) (ts : List Token) : Proper limit ts (read limit ts) := by
  induction limit generalizing ts with
  | zero => exact .zero rfl
  | succ limit ih =>
    cases ts with
    | nil => exact .fault (by rintro ⟨⟩) _
    | cons t ts =>
      have hdown : limit + 1 + ts.length ≤ limit + (t :: ts).length := by
        rw [List.length_cons]; omega
      simp only [read]
      split
      · split
        · rename_i hf
          exact .fault (ofLiteral_ne_runsPastEnd hf) _
        · exact .ok _
      · exact .ok _
      · split
        · exact .ok _
        · split
          · rename_i he
            exact (ih ts).error he hdown
          · exact .ok _
        · exact (readPair_proper ih _ ts).mono hdown
        · exact (readPair_proper ih _ ts).mono hdown
        · exact .fault (by rintro ⟨⟩) _
      · exact .fault (by rintro ⟨⟩) _
      · exact .fault (by rintro ⟨⟩) _

theorem readMany_proper (limit count : Nat) (ts : List Token) :
    Proper limit ts (readMany limit count ts) := by
  induction count generalizing ts with
  | zero => exact .ok _
  | succ count ih =>
    simp only [readMany]
    split
    · rename_i he
      exact (read_proper limit ts).error he (Nat.le_refl _)
    · rename_i he
      have hshorter := length_lt_of_read he
      split
      · rename_i hes
        exact (ih _).error hes (by omega)
      · exact .ok _

end Expr

/-! ## Statements -/

section

variable {d : Declarations} {limit : Nat} {one : List Token → Except Stop (Stmt × List Token)}

theorem sequence_proper (hone : ReadsStatements d limit one)
    (hproper : ∀ t ts, Proper limit (t :: ts) (one (t :: ts))) {n : Nat} {ts : List Token}
    (hfence : Fence n ts) : Proper limit ts (sequence one n ts) := by
  induction n using Nat.strongRecOn generalizing ts with
  | ind n ih =>
    cases n with
    | zero =>
      rw [sequence]
      exact .ok _
    | succ n =>
      cases ts with
      | nil => cases hfence.length_le
      | cons t ts =>
        rw [sequence]
        split
        · rename_i hs
          exact (hproper t ts).error hs (Nat.le_refl _)
        · rename_i s rest hs
          obtain ⟨us, hus, hd, -⟩ := hone _ _ _ hs
          rw [hus] at hfence
          obtain ⟨hle, hrest⟩ := hfence.rest hd.balanced hd.not_isEnd
          obtain ⟨u, us, rfl⟩ := List.exists_cons_of_ne_nil hd.ne_nil
          obtain ⟨rfl, rfl⟩ := List.cons.inj (hus.trans (List.cons_append ..))
          have hmore : (us ++ rest).length - rest.length = us.length := by simp
          simp only [List.length_cons, Nat.add_le_add_iff_right, Nat.add_sub_add_right]
            at hle hrest
          simp only [hmore, if_pos hle]
          split
          · rename_i hss
            have hshorter : rest.length ≤ (t :: (us ++ rest)).length := by
              rw [List.length_cons, List.length_append]; omega
            exact (ih _ (by omega) hrest).error hss (Nat.add_le_add_left hshorter _)
          · exact .ok _

theorem readBlock_proper (hone : ReadsStatements d limit one)
    (hproper : ∀ t ts, Proper limit (t :: ts) (one (t :: ts))) (ts : List Token) :
    Proper limit ts (readBlock one ts) := by
  cases ts with
  | nil => exact .fault (by rintro ⟨⟩) _
  | cons t ts =>
    simp only [readBlock]
    split
    · split
      · exact .fault (by rintro ⟨⟩) _
      · rename_i n hn
        split
        · rename_i hs
          exact (sequence_proper hone hproper (.block hn)).error hs (by simp)
        · exact .ok _
    · exact .fault (by rintro ⟨⟩) _

theorem readGuarded_proper (hone : ReadsStatements d limit one)
    (hproper : ∀ t ts, Proper limit (t :: ts) (one (t :: ts))) (ts : List Token) :
    Proper limit ts (readGuarded limit one ts) := by
  simp only [readGuarded]
  split
  · rename_i hc
    exact (Expr.read_proper limit ts).error hc (Nat.le_refl _)
  · rename_i hc
    have hshorter := Expr.length_lt_of_read hc
    split
    · rename_i hb
      exact (readBlock_proper hone hproper _).error hb (by omega)
    · exact .ok _

end

theorem readCommand_proper (limit : Nat) (v : Verb) (ts : List Token) :
    Proper limit ts (readCommand limit v ts) := by
  unfold readCommand
  split
  · split
    · exact .fault (by rintro ⟨⟩) _
    · split
      · split
        · rename_i hes
          exact (Expr.readMany_proper limit _ _).error hes (by simp)
        · exact .ok _
      · exact .fault (by rintro ⟨⟩) _
  · split
    · rename_i hes
      exact (Expr.readMany_proper limit _ _).error hes (Nat.le_refl _)
    · exact .ok _

theorem Stmt.read_proper {d : Declarations} (hd : d.Unreserved) (limit : Nat) (t : Token)
    (ts : List Token) : Proper limit (t :: ts) (Stmt.read d limit (t :: ts)) := by
  induction limit generalizing t ts with
  | zero => exact .zero rfl
  | succ limit ih =>
    have hdown : limit + 1 + ts.length ≤ limit + (t :: ts).length := by
      rw [List.length_cons]; omega
    simp only [Stmt.read]
    split
    · exact .fault (by rintro ⟨⟩) _
    · split
      · exact (readCommand_proper limit _ ts).mono hdown
      · split
        · rename_i h
          exact (readGuarded_proper (Stmt.read_sound hd limit) ih ts).error h hdown
        · exact .ok _
      · split
        · rename_i h
          exact (readGuarded_proper (Stmt.read_sound hd limit) ih ts).error h hdown
        · exact .ok _
      · exact .fault (by rintro ⟨⟩) _
      · exact .fault (by rintro ⟨⟩) _
      · split
        · split
          · rename_i hes
            exact (Expr.readMany_proper limit _ ts).error hes hdown
          · exact .ok _
        · exact .fault (by rintro ⟨⟩) _
    · exact .fault (by rintro ⟨⟩) _
    · exact .fault (by rintro ⟨⟩) _
    · exact .fault (by rintro ⟨⟩) _

/-! ## Definitions -/

theorem readParameters_proper (limit : Nat) (d : Declarations) (procedure : String)
    (taken : List String) (ts : List Token) :
    Proper limit ts (readParameters d procedure taken ts) := by
  induction ts generalizing taken with
  | nil => exact .ok _
  | cons t ts ih =>
    rw [readParameters]
    split
    · split
      · exact .fault (by rintro ⟨⟩) _
      · exact (ih _).mono (by simp)
    · exact .ok _

theorem readHeading_proper (limit : Nat) (d : Declarations) (ts : List Token) :
    Proper limit ts (readHeading d ts) := by
  cases ts with
  | nil => exact .fault (by rintro ⟨⟩) _
  | cons t ts =>
    simp only [readHeading]
    split
    · split
      · exact .fault (by rintro ⟨⟩) _
      · split
        · rename_i hps
          exact (readParameters_proper limit d t.text [] ts).error hps (by simp)
        · split
          · exact .fault (by rintro ⟨⟩) _
          · exact .ok _
    · exact .fault (by rintro ⟨⟩) _

/-- A body reaches up to the first `END` behind the heading. -/
theorem findIdx?_of_readHeading {d : Declarations} {ts : List Token} {h : Heading}
    (hread : readHeading d ts = .ok h) : h.rest.findIdx? isEnd = some h.bodyLength := by
  cases ts with
  | nil => cases hread
  | cons t ts =>
    simp only [readHeading] at hread
    split at hread
    · split at hread
      · cases hread
      · split at hread
        · cases hread
        · split at hread
          · cases hread
          · rename_i hn
            cases hread
            exact hn
    · cases hread

theorem readDefinition_proper {d : Declarations} (hd : d.Unreserved) (limit : Nat)
    (ts : List Token) : Proper limit ts (readDefinition limit d ts).1 := by
  unfold readDefinition
  split
  · rename_i hh
    exact (readHeading_proper limit d ts).error hh (Nat.le_refl _)
  · rename_i h hh
    obtain ⟨ps, bs, us, stop, rfl, -, -, hname, -⟩ := readHeading_sound hh
    have hd₁ := hd.cons hname h.parameters.length
    have hbody : Fence h.bodyLength h.rest := .body (findIdx?_of_readHeading hh)
    simp only
    split
    · rename_i hs
      exact (sequence_proper (Stmt.read_sound hd₁ limit) (Stmt.read_proper hd₁ limit)
        hbody).error hs (by simp only [List.length_cons, List.length_append]; omega)
    · exact .ok _

theorem Stmt.readTop_proper {d : Declarations} (hd : d.Unreserved) (limit : Nat) (t : Token)
    (ts : List Token) : Proper limit (t :: ts) (Stmt.readTop limit d (t :: ts)).1 := by
  rw [Stmt.readTop]
  split
  · exact (readDefinition_proper hd limit ts).mono (by simp)
  · exact Stmt.read_proper hd limit t ts

theorem topSequence_proper (limit : Nat) {d : Declarations} (hd : d.Unreserved)
    (ts : List Token) : Proper limit ts (topSequence limit d ts.length ts).1 := by
  induction hn : ts.length using Nat.strongRecOn generalizing d ts with
  | ind n ih =>
    subst hn
    cases ts with
    | nil =>
      rw [List.length_nil, topSequence]
      exact .ok _
    | cons t ts =>
      have htop := Stmt.readTop_proper hd limit t ts
      rw [List.length_cons, topSequence]
      split
      · rename_i hs
        rw [hs] at htop
        exact htop.error rfl (Nat.le_refl _)
      · rename_i s rest d₁ hs
        obtain ⟨us, hus, hne, -, hd₁, -⟩ := readTop_sound hd hs
        obtain ⟨u, us, rfl⟩ := List.exists_cons_of_ne_nil hne
        obtain ⟨rfl, rfl⟩ := List.cons.inj (hus.trans (List.cons_append ..))
        have hmore : (us ++ rest).length - rest.length = us.length := by simp
        have hle : us.length ≤ (us ++ rest).length := by simp
        have hleft : (us ++ rest).length - us.length = rest.length := by simp
        have hshorter : rest.length < (t :: (us ++ rest)).length := by
          rw [List.length_cons, List.length_append]; omega
        have hrest := ih rest.length hshorter hd₁ rest rfl
        simp only [hmore, if_pos hle, hleft]
        split
        · rename_i hss
          rw [hss] at hrest
          exact hrest.error rfl (by omega)
        · exact .ok _

/-! ## Parses -/

/-- A parse comes to an end of three kinds. The limit can only be met where there are as many
tokens. -/
theorem parse_proper (limit : Nat) (tokens : List Token) :
    (∃ script, (parse limit tokens).1 = .ok script) ∨
    (∃ e, (parse limit tokens).1 = .error (.error e) ∧ e.fault ≠ .runsPastEnd) ∨
    ((parse limit tokens).1 = .error .tooDeep ∧ limit ≤ tokens.length) := by
  have hproper := topSequence_proper limit .nil tokens
  unfold parse
  split
  · rename_i s d hs
    have hstop := hproper s (by rw [hs])
    cases s with
    | fault why rest =>
      right; left
      cases rest with
      | nil => exact ⟨_, rfl, hstop⟩
      | cons t rest => exact ⟨_, rfl, hstop⟩
    | beyondEnd => exact hstop.elim
    | tooDeep => exact .inr (.inr ⟨rfl, hstop⟩)
  · exact .inl ⟨_, rfl⟩

/-- A parse that fails has found a fault of the script or met its limit. -/
theorem parse_inside (limit : Nat) (tokens : List Token) :
    (parse limit tokens).1 ≠ .error .beyondEnd := by
  intro h
  obtain ⟨script, hs⟩ | ⟨e, he, -⟩ | ⟨hdeep, -⟩ := parse_proper limit tokens
  · rw [hs] at h; cases h
  · rw [he] at h; cases h
  · rw [hdeep] at h; cases h

end TurtleGraphics
