import TurtleGraphics.Proofs.Partners
import TurtleGraphics.Proofs.Phrases

/-!
# TurtleGraphics.Proofs.StatementPhrases

How the reading of a statement gets stuck.

The parser looks ahead in two places, for the end of a block and for the end of a body, and so it
could find fault with a token before it has seen that an earlier one is wrong. It does not: where
brackets pair up, the end of a block is never missing (`BlocksClosed`), and no statement reaches
beyond the end of its block or body (`Ranges.rest`).

* `Stmt.phrase`, `Stmt.filling` : statements, and statements up to the token that ends them.
* `Stmt.Starts`        : what a statement can start with.
* `Ranges`             : what a range of tokens has to be like for statements to be read from it.
* `InBlock`, `InBody`  : the two kinds of range, which end with a bracket and with `END`.
* `Stmt.read_blames`   : a reader of statements that finds a fault gets stuck at the right place.
-/

namespace TurtleGraphics

/-! ## Kinds of statement -/

namespace Stmt

variable {d : Declarations}

/-- Statements of a block or a body. -/
def phrase (d : Declarations) : Phrase := fun us => ∃ s, Stmt.Derived d us s

/-- Statements up to a token that ends them, with this token. -/
def filling (d : Declarations) (Ends : Token → Prop) : Phrase :=
  fun us => ∃ bs stop ss, us = bs ++ [stop] ∧ Stmt.AllDerived d bs ss ∧ Ends stop

/-- Blocks with their brackets. -/
def block (d : Declarations) : Phrase :=
  (Phrase.one (fun t => t.kind = .openBlock)).followedBy
    (filling d (fun t => t.kind = .closeBlock))

theorem phrase_penUp : phrase d [.ofWord "PENUP"] :=
  ⟨_, .command (v := .penUp) rfl rfl .nil rfl⟩

theorem not_phrase_nil : ¬ phrase d [] := by
  rintro ⟨s, hs⟩
  exact hs.ne_nil rfl

theorem definite_phrase : (phrase d).Definite := by
  rintro a a' x y ⟨s, hs⟩ ⟨s', hs'⟩ heq
  have hread := Stmt.read_complete d _ a s x hs (Nat.le_max_left s.nesting s'.nesting)
  rw [heq, Stmt.read_complete d _ a' s' y hs' (Nat.le_max_right s.nesting s'.nesting)] at hread
  cases hread
  exact List.append_cancel_right heq

theorem filling_of_end {Ends : Token → Prop} {t : Token} (ht : Ends t) : filling d Ends [t] :=
  ⟨[], t, [], rfl, .nil, ht⟩

theorem not_filling_nil {Ends : Token → Prop} : ¬ filling d Ends [] := by
  rintro ⟨bs, stop, ss, hnil, -⟩
  cases bs <;> cases hnil

theorem filling_of_followedBy {Ends : Token → Prop} {us : List Token}
    (h : ((phrase d).followedBy (filling d Ends)) us) : filling d Ends us := by
  obtain ⟨a, _, rfl, ⟨s, hs⟩, bs, stop, ss, rfl, hss, hstop⟩ := h
  exact ⟨a ++ bs, stop, s :: ss, by simp, .cons hs hss, hstop⟩

/-- Statements that do not end at once start with a statement. -/
theorem followedBy_of_filling {Ends : Token → Prop} {t : Token} (ht : ¬ Ends t) {us : List Token}
    (h : filling d Ends (t :: us)) : ((phrase d).followedBy (filling d Ends)) (t :: us) := by
  obtain ⟨bs, stop, ss, heq, hss, hstop⟩ := h
  cases hss with
  | nil =>
    obtain ⟨rfl, -⟩ := List.cons.inj heq
    exact absurd hstop ht
  | @cons a bs s ss hs hss =>
    exact ⟨a, bs ++ [stop], by rw [heq, List.append_assoc], ⟨s, hs⟩, bs, stop, ss, rfl, hss, hstop⟩

theorem block_brackets : block d [.opening, .closing] :=
  ⟨[.opening], [.closing], rfl, ⟨_, rfl, rfl⟩, filling_of_end rfl⟩

/-- What a statement can start with. -/
def Starts (d : Declarations) (t : Token) : Prop :=
  t.kind = .word ∧ ((∃ v, Keyword.of? t.text = some (.command v)) ∨
    Keyword.of? t.text = some .ifThen ∨ Keyword.of? t.text = some .whileDo ∨
    Keyword.of? t.text = none ∧ ∃ n, d.arity? t.text = some n)

theorem Derived.starts {t : Token} {ts : List Token} {s : Stmt}
    (h : Stmt.Derived d (t :: ts) s) : Starts d t := by
  cases h with
  | command hw _ _ _ => exact ⟨rfl, .inl ⟨_, hw⟩⟩
  | assignment hw _ _ => exact ⟨rfl, .inl ⟨_, hw⟩⟩
  | ifThen hw _ _ _ _ => exact ⟨rfl, .inr (.inl hw)⟩
  | whileDo hw _ _ _ _ => exact ⟨rfl, .inr (.inr (.inl hw))⟩
  | call hname harity _ =>
    exact ⟨rfl, .inr (.inr (.inr ⟨of?_eq_none_of_unreserved hname, _, harity⟩))⟩

theorem stuck_here {t : Token} (h : ¬ Starts d t) (ts : List Token) :
    (phrase d).Stuck (t :: ts) (t :: ts) := by
  refine .here phrase_penUp ?_ not_phrase_nil
  rintro _ _ ⟨rfl, rfl⟩ b ⟨s, hs⟩
  exact h hs.starts

/-! ## What follows the first word of a statement -/

variable {w : String}

theorem phrase_command {v : Verb} (hw : Keyword.of? w = some (.command v))
    (hv : v.takesName = false) (a : List Token) :
    phrase d (.ofWord w :: a) ↔ (Expr.phrase.times v.arity) a := by
  rw [Expr.times_phrase]
  constructor
  · rintro ⟨_, h⟩
    cases h with
    | command hc _ hes hlength =>
      rw [hw] at hc
      cases hc
      exact ⟨_, hes, hlength⟩
    | assignment hc hname _ =>
      rw [hw] at hc
      cases hc
      rw [hv] at hname
      cases hname
    | ifThen hc _ _ _ _ => simp [hw] at hc
    | whileDo hc _ _ _ _ => simp [hw] at hc
    | call hname _ _ => simp [of?_eq_none_of_unreserved hname] at hw
  · rintro ⟨es, hes, hlength⟩
    exact ⟨_, .command hw hv hes hlength⟩

theorem phrase_assignment {v : Verb} (hw : Keyword.of? w = some (.command v))
    (hv : v.takesName = true) (a : List Token) :
    phrase d (.ofWord w :: a) ↔
      ((Phrase.one (fun t => t.kind = .quoted)).followedBy (Expr.phrase.times v.arity)) a := by
  rw [Verb.arity_of_takesName hv]
  constructor
  · rintro ⟨_, h⟩
    cases h with
    | command hc hname _ _ =>
      rw [hw] at hc
      cases hc
      rw [hv] at hname
      cases hname
    | @assignment _ _ name ts e hc _ he =>
      exact ⟨[.ofQuoted name], ts, rfl, ⟨_, rfl, rfl⟩, ts, [], by simp, ⟨e, he⟩, rfl⟩
    | ifThen hc _ _ _ _ => simp [hw] at hc
    | whileDo hc _ _ _ _ => simp [hw] at hc
    | call hname _ _ => simp [of?_eq_none_of_unreserved hname] at hw
  · rintro ⟨_, _, rfl, ⟨t, rfl, ht⟩, ts, _, rfl, ⟨e, he⟩, rfl⟩
    rw [Expr.eq_ofQuoted ht, List.append_nil]
    exact ⟨_, .assignment hw hv he⟩

theorem followedBy_block_iff {a : List Token} :
    (Expr.phrase.followedBy (block d)) a ↔
      ∃ (cs bs : List Token) (opener closer : Token) (c : Expr) (ss : List Stmt),
        a = cs ++ opener :: (bs ++ [closer]) ∧ Expr.Derived cs c ∧ opener.kind = .openBlock ∧
          Stmt.AllDerived d bs ss ∧ closer.kind = .closeBlock := by
  constructor
  · rintro ⟨cs, _, rfl, ⟨c, hc⟩, _, _, rfl, ⟨opener, rfl, ho⟩, bs, closer, ss, rfl, hss, hcl⟩
    exact ⟨cs, bs, opener, closer, c, ss, rfl, hc, ho, hss, hcl⟩
  · rintro ⟨cs, bs, opener, closer, c, ss, rfl, hc, ho, hss, hcl⟩
    exact ⟨cs, _, rfl, ⟨c, hc⟩, [opener], bs ++ [closer], rfl, ⟨opener, rfl, ho⟩, bs, closer, ss,
      rfl, hss, hcl⟩

/-- Behind `IF` and `WHILE` stands the same. -/
theorem phrase_guarded (hw : Keyword.of? w = some .ifThen ∨ Keyword.of? w = some .whileDo)
    (a : List Token) : phrase d (.ofWord w :: a) ↔ (Expr.phrase.followedBy (block d)) a := by
  rw [followedBy_block_iff]
  constructor
  · rintro ⟨_, h⟩
    cases h with
    | command hc _ _ _ => simp [hc] at hw
    | assignment hc _ _ => simp [hc] at hw
    | ifThen _ hc ho hss hcl => exact ⟨_, _, _, _, _, _, rfl, hc, ho, hss, hcl⟩
    | whileDo _ hc ho hss hcl => exact ⟨_, _, _, _, _, _, rfl, hc, ho, hss, hcl⟩
    | call hname _ _ => simp [of?_eq_none_of_unreserved hname] at hw
  · rintro ⟨cs, bs, opener, closer, c, ss, rfl, hc, ho, hss, hcl⟩
    obtain hw | hw := hw
    · exact ⟨_, .ifThen hw hc ho hss hcl⟩
    · exact ⟨_, .whileDo hw hc ho hss hcl⟩

theorem phrase_call {count : Nat} (hname : isReserved w = false)
    (hcount : d.arity? w = some count) (a : List Token) :
    phrase d (.ofWord w :: a) ↔ (Expr.phrase.times count) a := by
  have hw := of?_eq_none_of_unreserved hname
  rw [Expr.times_phrase]
  constructor
  · rintro ⟨_, h⟩
    cases h with
    | command hc _ _ _ => simp [hw] at hc
    | assignment hc _ _ => simp [hw] at hc
    | ifThen hc _ _ _ _ => simp [hw] at hc
    | whileDo hc _ _ _ _ => simp [hw] at hc
    | call _ harity hes =>
      rw [hcount] at harity
      exact ⟨_, hes, (Option.some.inj harity).symm⟩
  · rintro ⟨es, hes, rfl⟩
    exact ⟨_, .call hname hcount hes⟩

end Stmt

/-! ## Ranges of tokens -/

/-- Statements can be read from the next so many tokens, up to a token that ends them. No bracket in
the way is left open, and a statement read from the front leaves a range of the same kind. -/
structure Ranges (Ends : Token → Prop) (Inside : Nat → List Token → Prop) : Prop where
  ends : ∃ t, Ends t
  head : ∀ {n t ts}, Inside (n + 1) (t :: ts) →
    t.kind ≠ .closeBlock ∧ ¬ Ends t ∧ BlocksClosed (t :: ts)
  rest : ∀ {n d used rest s}, Inside n (used ++ rest) → Stmt.Derived d used s →
    used.length ≤ n ∧ Inside (n - used.length) rest

/-- The next `n` tokens are the inside of a block. -/
def InBlock (n : Nat) (ts : List Token) : Prop :=
  BlocksClosed ts ∧ ∃ (inner : List Token) (closer : Token) (outer : List Token),
    ts = inner ++ closer :: outer ∧ inner.length = n ∧ Balanced inner ∧ closer.kind = .closeBlock

/-- The next `n` tokens stand before the first `END`. -/
def InBody (n : Nat) (ts : List Token) : Prop :=
  Balanced ts ∧ ∃ (inner : List Token) (stop : Token) (outer : List Token),
    ts = inner ++ stop :: outer ∧ inner.length = n ∧ (∀ t ∈ inner, isEnd t = false) ∧
      isEnd stop = true

theorem eq_append_of_length_le {used rest inner outer : List Token}
    (h : used ++ rest = inner ++ outer) (hle : used.length ≤ inner.length) :
    ∃ more, inner = used ++ more ∧ rest = more ++ outer := by
  obtain ⟨more, rfl, rfl⟩ | ⟨more, rfl, rfl⟩ := List.append_eq_append_iff.mp h
  · exact ⟨more, rfl, rfl⟩
  · rw [List.length_append] at hle
    obtain rfl : more = [] := List.length_eq_zero_iff.mp (by omega)
    exact ⟨[], by simp, by simp⟩

theorem ranges_block : Ranges (fun t => t.kind = .closeBlock) InBlock where
  ends := ⟨.closing, rfl⟩
  head := by
    rintro n t ts ⟨hclosed, inner, closer, outer, heq, hlength, hinner, -⟩
    obtain ⟨u, inner, rfl⟩ := List.exists_cons_of_length_eq_add_one hlength
    obtain ⟨rfl, -⟩ := List.cons.inj heq
    exact ⟨hinner.not_close, hinner.not_close, hclosed⟩
  rest := by
    rintro n d used rest s ⟨hclosed, inner, closer, outer, heq, rfl, hinner, hcl⟩ hs
    have hle := hinner.length_le_of_append hcl hs.balanced heq
    obtain ⟨more, rfl, rfl⟩ := eq_append_of_length_le heq hle
    exact ⟨hle, hclosed.of_append, more, closer, outer, rfl, by simp,
      hs.balanced.of_append hinner, hcl⟩

theorem ranges_body : Ranges (fun t => isEnd t = true) InBody where
  ends := ⟨.ofWord "END", rfl⟩
  head := by
    rintro n t ts ⟨hbalanced, inner, stop, outer, heq, hlength, hinner, -⟩
    obtain ⟨u, inner, rfl⟩ := List.exists_cons_of_length_eq_add_one hlength
    obtain ⟨rfl, -⟩ := List.cons.inj heq
    have ht : isEnd t = false := hinner t List.mem_cons_self
    exact ⟨hbalanced.not_close, by simp [ht], hbalanced.blocksClosed⟩
  rest := by
    rintro n d used rest s ⟨hbalanced, inner, stop, outer, heq, rfl, hinner, hstop⟩ hs
    -- A statement contains no `END`, so it stops before the one that is next.
    have hle : used.length ≤ inner.length := by
      by_contra hlt
      have hmem : stop ∈ used := by
        have hget := congrArg (fun us => us[inner.length]?) heq
        rw [List.getElem?_append_left (by omega), List.getElem?_append_right (Nat.le_refl _),
          Nat.sub_self, List.getElem?_cons_zero] at hget
        exact List.mem_of_getElem? hget
      rw [hs.not_isEnd stop hmem] at hstop
      cases hstop
    obtain ⟨more, rfl, rfl⟩ := eq_append_of_length_le heq hle
    exact ⟨hle, hs.balanced.of_append hbalanced, more, stop, outer, rfl, by simp,
      fun t ht => hinner t (List.mem_append_right _ ht), hstop⟩

/-! ## Reading statements -/

section

variable {d : Declarations} {limit : Nat} {one : List Token → Except Stop (Stmt × List Token)}

/-- What the lemmas below ask of the reader of one statement. -/
def BlamesStatements (d : Declarations)
    (one : List Token → Except Stop (Stmt × List Token)) : Prop :=
  ∀ t ts, t.kind ≠ .closeBlock → BlocksClosed (t :: ts) →
    Blames ((Stmt.phrase d).Stuck (t :: ts)) (one (t :: ts))

/-- Statements read from a range of tokens, of any kind that is kept by the statements in it. -/
theorem sequence_blames {Ends : Token → Prop} {Inside : Nat → List Token → Prop}
    (hrange : Ranges Ends Inside) (hsound : ReadsStatements d limit one)
    (hone : BlamesStatements d one) {n : Nat} {ts : List Token} (hn : Inside n ts) :
    Blames ((Stmt.filling d Ends).Stuck ts) (sequence one n ts) := by
  induction n using Nat.strongRecOn generalizing ts with
  | ind n ih =>
    cases n with
    | zero =>
      rw [sequence]
      exact .ok _
    | succ n =>
      cases ts with
      | nil =>
        rw [sequence]
        exact .beyondEnd
      | cons t ts =>
        obtain ⟨hopen, hends, hclosed⟩ := hrange.head hn
        have hwiden : ∀ rest,
            ((Stmt.phrase d).followedBy (Stmt.filling d Ends)).Stuck (t :: ts) rest →
            (Stmt.filling d Ends).Stuck (t :: ts) rest :=
          fun rest h => h.widen (fun _ => Stmt.filling_of_followedBy)
            (fun _ => Stmt.followedBy_of_filling hends) Stmt.not_filling_nil
        rw [sequence]
        split
        · rename_i hs
          obtain ⟨stop, hstop⟩ := hrange.ends
          exact (hone t ts hopen hclosed).error hs fun rest h =>
            hwiden rest (h.first (Stmt.filling_of_end hstop))
        · rename_i s rest₁ hs
          obtain ⟨used, hused, hd, -⟩ := hsound _ _ _ hs
          rw [hused] at hn
          obtain ⟨hle, hrest⟩ := hrange.rest hn hd
          obtain ⟨u, us, rfl⟩ := List.exists_cons_of_ne_nil hd.ne_nil
          obtain ⟨rfl, hts⟩ := List.cons.inj (hused.trans (List.cons_append ..))
          have hmore : ts.length - rest₁.length = us.length := by simp [hts]
          rw [List.length_cons] at hle hrest
          rw [Nat.add_sub_add_right] at hrest
          simp only [hmore]
          rw [if_pos (by omega)]
          split
          · rename_i hss
            refine (ih _ (by omega) hrest).error hss fun rest h => hwiden rest ?_
            rw [hused]
            exact h.second Stmt.definite_phrase ⟨s, hd⟩
          · exact .ok _

theorem readBlock_blames (hsound : ReadsStatements d limit one) (hone : BlamesStatements d one)
    {ts : List Token} (hclosed : BlocksClosed ts) :
    Blames ((Stmt.block d).Stuck ts) (readBlock one ts) := by
  cases ts with
  | nil =>
    exact .fault rfl (.atEnd Stmt.block_brackets)
  | cons t ts =>
    simp only [readBlock]
    split
    · rename_i ho
      split
      · -- The end of a block is there to be found.
        rename_i hnone
        obtain ⟨inner, closer, rest, rfl, hinner, hcl⟩ := hclosed.1 ho
        rw [closingOffset?_of_balanced hinner hcl] at hnone
        cases hnone
      · rename_i n hn
        have hinside : InBlock n ts :=
          ⟨hclosed.2, (closingOffset?_eq_some_iff hclosed ho).mp hn⟩
        split
        · rename_i hs
          exact (sequence_blames ranges_block hsound hone hinside).error hs fun _ h =>
            h.cons (Phrase.followedBy_one_cons ho) Phrase.not_followedBy_one_nil
        · exact .ok _
    · rename_i ho
      exact .fault rfl (.one Stmt.block_brackets ho ts)

theorem readGuarded_blames (hsound : ReadsStatements d limit one) (hone : BlamesStatements d one)
    {ts : List Token} (hclosed : BlocksClosed ts) :
    Blames ((Expr.phrase.followedBy (Stmt.block d)).Stuck ts) (readGuarded limit one ts) := by
  simp only [readGuarded]
  split
  · rename_i hc
    exact (Expr.read_blames limit ts).error hc fun _ h => h.first Stmt.block_brackets
  · rename_i c rest₁ hc
    obtain ⟨used, rfl, hused, -⟩ := Expr.read_sound hc
    split
    · rename_i hb
      exact (readBlock_blames hsound hone hclosed.of_append).error hb fun _ h =>
        h.second Expr.definite_phrase ⟨c, hused⟩
    · exact .ok _

theorem readCommand_blames {w : String} {v : Verb} (hw : Keyword.of? w = some (.command v))
    (ts : List Token) :
    Blames ((Stmt.phrase d).Stuck (.ofWord w :: ts)) (readCommand limit v ts) := by
  simp only [readCommand]
  split
  · rename_i hname
    have hcons : ∀ us rest,
        ((Phrase.one (fun t => t.kind = .quoted)).followedBy
          (Expr.phrase.times v.arity)).Stuck us rest →
        (Stmt.phrase d).Stuck (.ofWord w :: us) rest :=
      fun us rest h => h.cons (Stmt.phrase_assignment hw hname) Stmt.not_phrase_nil
    obtain ⟨es, hes⟩ := Phrase.times_of_all Expr.phrase_literal v.arity
    have hstart : ((Phrase.one (fun t => t.kind = .quoted)).followedBy
        (Expr.phrase.times v.arity)) (.ofQuoted "x" :: es) :=
      ⟨[.ofQuoted "x"], es, rfl, ⟨_, rfl, rfl⟩, hes⟩
    split
    · exact .fault rfl (hcons _ _ (.atEnd hstart))
    · rename_i t ts
      split
      · rename_i hk
        split
        · rename_i hr
          exact (Expr.readMany_blames limit _ ts).error hr fun rest h =>
            hcons _ rest (h.cons (Phrase.followedBy_one_cons hk) Phrase.not_followedBy_one_nil)
        · exact .ok _
      · rename_i hk
        exact .fault rfl (hcons _ _ (.one hstart hk ts))
  · rename_i hname
    split
    · rename_i hr
      exact (Expr.readMany_blames limit _ ts).error hr fun rest h =>
        h.cons (Stmt.phrase_command hw (by simpa using hname)) Stmt.not_phrase_nil
    · exact .ok _

end

theorem Stmt.read_blames {d : Declarations} (hd : d.Unreserved) (limit : Nat) :
    BlamesStatements d (Stmt.read d limit) := by
  induction limit with
  | zero =>
    intro t ts _ _
    exact .tooDeep
  | succ limit ih =>
    intro t ts hopen hclosed
    have hsound := Stmt.read_sound hd limit
    simp only [Stmt.read]
    split
    · rename_i hk
      exact absurd hk hopen
    · rename_i hk
      rw [Expr.eq_ofWord hk]
      split
      · rename_i v hw
        exact readCommand_blames hw ts
      · rename_i hw
        split
        · rename_i hg
          exact (readGuarded_blames hsound ih hclosed.2).error hg fun _ h =>
            h.cons (Stmt.phrase_guarded (.inl hw)) Stmt.not_phrase_nil
        · exact .ok _
      · rename_i hw
        split
        · rename_i hg
          exact (readGuarded_blames hsound ih hclosed.2).error hg fun _ h =>
            h.cons (Stmt.phrase_guarded (.inr hw)) Stmt.not_phrase_nil
        · exact .ok _
      · rename_i hw
        rw [Token.text_ofWord] at hw
        exact .fault rfl (stuck_here (by simp [Starts, hw]) ts)
      · rename_i hw
        rw [Token.text_ofWord] at hw
        exact .fault rfl (stuck_here (by simp [Starts, hw]) ts)
      · rename_i hcommand hif hwhile _ _
        split
        · rename_i count hcount
          split
          · rename_i hes
            exact (Expr.readMany_blames limit count ts).error hes fun _ h =>
              h.cons (Stmt.phrase_call (hd _ _ hcount) hcount) Stmt.not_phrase_nil
          · exact .ok _
        · rename_i hnone
          refine .fault rfl (stuck_here ?_ ts)
          rintro ⟨-, ⟨v, hw⟩ | hw | hw | ⟨-, n, hn⟩⟩
          · exact hcommand v hw
          · exact hif hw
          · exact hwhile hw
          · rw [hnone] at hn
            cases hn
    · rename_i hk
      exact .fault rfl (stuck_here (by simp [Starts, hk]) ts)
    · rename_i hk
      exact .fault rfl (stuck_here (by simp [Starts, hk]) ts)
    · rename_i hk
      exact .fault rfl (stuck_here (by simp [Starts, hk]) ts)

end TurtleGraphics
