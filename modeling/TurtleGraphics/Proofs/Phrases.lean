import TurtleGraphics.Proofs.ReadComplete

/-!
# TurtleGraphics.Proofs.Phrases

Kinds of phrase, and how the reading of one gets stuck.

A kind of phrase is given by the lists of tokens that are a phrase of it. Reading a phrase from the
front of some tokens is stuck at the right place if what was read can be gone on with, but not with
the token that comes next.

* `Phrase.Extends`   : tokens that some more tokens make a phrase.
* `Phrase.Excludes`  : tokens that no phrase can start with, whatever stands behind them.
* `Phrase.Definite`  : no phrase is the beginning of another one.
* `Phrase.Stuck`     : the right place to get stuck, with rules for phrases made of phrases.
* `Blames`           : a reader that finds a fault gets stuck at the right place.
* `Expr.read_blames` : the reader of expressions does.
-/

namespace TurtleGraphics

/-- A kind of phrase, as the lists of tokens that are one. -/
abbrev Phrase := List Token → Prop

namespace Phrase

/-- A phrase of one kind with a phrase of another kind behind it. -/
def followedBy (P Q : Phrase) : Phrase :=
  fun us => ∃ a b, us = a ++ b ∧ P a ∧ Q b

/-- No phrase is the beginning of another one. -/
def Definite (P : Phrase) : Prop :=
  ∀ {a a' x y}, P a → P a' → a ++ x = a' ++ y → a = a'

/-- The tokens are the beginning of a phrase. -/
def Extends (P : Phrase) (used : List Token) : Prop :=
  ∃ more, P (used ++ more)

/-- No phrase stands at the front of tokens that begin like these. -/
def Excludes (P : Phrase) (used : List Token) : Prop :=
  ∀ more a x, used ++ more = a ++ x → ¬ P a

/-- What stands before `rest` is the beginning of a phrase, and with the next token it is not. -/
def Stuck (P : Phrase) (ts rest : List Token) : Prop :=
  ∃ used, ts = used ++ rest ∧ P.Extends used ∧
    ∀ t tail, rest = t :: tail → P.Excludes (used ++ [t])

variable {P Q : Phrase} {t : Token} {ts rest : List Token}

/-- A phrase cannot start with the next token. -/
theorem Stuck.here {a : List Token} (ha : P a)
    (h : ∀ t tail, ts = t :: tail → ∀ b, ¬ P (t :: b)) (hnil : ¬ P []) : P.Stuck ts ts := by
  refine ⟨[], rfl, ⟨a, ha⟩, ?_⟩
  intro t tail htail more b x hb hP
  cases b with
  | nil => exact hnil hP
  | cons u b =>
    obtain ⟨rfl, -⟩ := List.cons.inj hb
    exact h t tail htail b hP

/-- At the end of the tokens any phrase is still to come. -/
theorem Stuck.atEnd {a : List Token} (ha : P a) : P.Stuck [] [] := by
  refine ⟨[], rfl, ⟨a, ha⟩, ?_⟩
  intro t tail htail
  cases htail

/-- The first of two phrases is stuck, so both are. -/
theorem Stuck.first (h : P.Stuck ts rest) {b : List Token} (hb : Q b) :
    (P.followedBy Q).Stuck ts rest := by
  obtain ⟨used, rfl, ⟨more, hmore⟩, hnot⟩ := h
  refine ⟨used, rfl, ⟨more ++ b, used ++ more, b, by simp, hmore, hb⟩, ?_⟩
  rintro t tail htail more' _ x heq ⟨a, c, rfl, ha, -⟩
  rw [List.append_assoc a] at heq
  exact hnot t tail htail more' a (c ++ x) heq ha

/-- The second of two phrases is stuck behind the first one. -/
theorem Stuck.second {a : List Token} (hP : P.Definite) (ha : P a) (h : Q.Stuck ts rest) :
    (P.followedBy Q).Stuck (a ++ ts) rest := by
  obtain ⟨used, rfl, ⟨more, hmore⟩, hnot⟩ := h
  refine ⟨a ++ used, by simp, ⟨more, a, used ++ more, by simp, ha, hmore⟩, ?_⟩
  rintro t tail htail more' _ x heq ⟨a', b, rfl, ha', hb⟩
  simp only [List.append_assoc] at heq
  obtain rfl := hP ha ha' heq
  have hrest := List.append_cancel_left heq
  rw [← List.append_assoc] at hrest
  exact hnot t tail htail more' b x hrest hb

/-- The head of a phrase is as it should be, and what is to follow it is stuck. -/
theorem Stuck.cons (hP : ∀ a, P (t :: a) ↔ Q a) (hnil : ¬ P []) (h : Q.Stuck ts rest) :
    P.Stuck (t :: ts) rest := by
  obtain ⟨used, rfl, ⟨more, hmore⟩, hnot⟩ := h
  refine ⟨t :: used, rfl, ⟨more, (hP _).mpr hmore⟩, ?_⟩
  intro u tail htail more' a x heq ha
  cases a with
  | nil => exact hnil ha
  | cons v a =>
    obtain ⟨rfl, hrest⟩ := List.cons.inj heq
    exact hnot u tail htail more' a x hrest ((hP a).mp ha)

/-- Being stuck with one kind of phrase is being stuck with a wider one, if no others of that start
like the tokens at hand. -/
theorem Stuck.widen (hsub : ∀ a, Q a → P a) (hhead : ∀ a, P (t :: a) → Q (t :: a)) (hnil : ¬ P [])
    (h : Q.Stuck (t :: ts) rest) : P.Stuck (t :: ts) rest := by
  obtain ⟨used, hused, ⟨more, hmore⟩, hnot⟩ := h
  refine ⟨used, hused, ⟨more, hsub _ hmore⟩, ?_⟩
  intro u tail htail more' a x heq ha
  cases a with
  | nil => exact hnil ha
  | cons v a =>
    have hv : v = t := by
      cases used with
      | nil =>
        rw [htail] at hused
        exact (List.cons.inj heq).1.symm.trans (List.cons.inj hused).1.symm
      | cons w used => exact (List.cons.inj heq).1.symm.trans (List.cons.inj hused).1.symm
    subst hv
    exact hnot u tail htail more' _ x heq (hhead a ha)

/-- A number of phrases of one kind. -/
def times (P : Phrase) : Nat → Phrase
  | 0 => fun us => us = []
  | n + 1 => P.followedBy (P.times n)

theorem times_of_all {a : List Token} (ha : P a) (n : Nat) : ∃ us, P.times n us := by
  induction n with
  | zero => exact ⟨[], rfl⟩
  | succ n ih =>
    obtain ⟨us, hus⟩ := ih
    exact ⟨a ++ us, a, us, rfl, ha, hus⟩

/-- A token of a certain kind. -/
def one (p : Token → Prop) : Phrase := fun us => ∃ t, us = [t] ∧ p t

theorem followedBy_one_cons {p : Token → Prop} (ht : p t) (a : List Token) :
    ((one p).followedBy Q) (t :: a) ↔ Q a := by
  constructor
  · rintro ⟨_, b, heq, ⟨u, rfl, -⟩, hb⟩
    obtain ⟨-, rfl⟩ := List.cons.inj heq
    exact hb
  · intro ha
    exact ⟨[t], a, rfl, ⟨t, rfl, ht⟩, ha⟩

theorem not_followedBy_one_nil {p : Token → Prop} : ¬ ((one p).followedBy Q) [] := by
  rintro ⟨_, b, hnil, ⟨u, rfl, -⟩, -⟩
  cases hnil

/-- A phrase that is to start with a certain token is stuck at any other one. -/
theorem Stuck.one {p : Token → Prop} {a : List Token} (ha : ((one p).followedBy Q) a) (ht : ¬ p t)
    (ts : List Token) : ((Phrase.one p).followedBy Q).Stuck (t :: ts) (t :: ts) := by
  refine .here ha ?_ not_followedBy_one_nil
  rintro _ _ ⟨rfl, rfl⟩ b ⟨_, c, heq, ⟨u, rfl, hu⟩, -⟩
  obtain ⟨rfl, -⟩ := List.cons.inj heq
  exact ht hu

end Phrase

/-! ## Readers -/

/-- The fault is about the token at which the reading stops, and no bracket is missing. -/
def ParseFault.isLocal : ParseFault → Bool
  | .unexpectedClose => false
  | .unterminatedBlock => false
  | .missingEnd _ => false
  | .runsPastEnd => false
  | _ => true

/-- When a reader finds a fault, it is that of a definition without `END`, or the reader stops
before tokens where it should. -/
def Blames {α : Type} (Should : List Token → Prop) (r : Except Stop α) : Prop :=
  ∀ why rest, r = .error (.fault why rest) →
    (∃ name, why = .missingEnd name) ∨ why.isLocal = true ∧ Should rest

namespace Blames

variable {α β : Type} {Should Should' : List Token → Prop}

theorem ok (a : α) : Blames Should (.ok a) := by
  intro why rest h
  cases h

theorem tooDeep : Blames Should (.error .tooDeep : Except Stop α) := by
  intro why rest h
  cases h

theorem beyondEnd : Blames Should (.error .beyondEnd : Except Stop α) := by
  intro why rest h
  cases h

theorem fault {why : ParseFault} {rest : List Token} (hwhy : why.isLocal = true)
    (h : Should rest) : Blames Should (.error (.fault why rest) : Except Stop α) := by
  intro why' rest' heq
  cases heq
  exact .inr ⟨hwhy, h⟩

theorem imp {r : Except Stop α} (h : Blames Should r)
    (himp : ∀ rest, Should rest → Should' rest) : Blames Should' r := by
  intro why rest hr
  obtain hname | ⟨hwhy, hrest⟩ := h why rest hr
  · exact .inl hname
  · exact .inr ⟨hwhy, himp rest hrest⟩

/-- A reader passes on the fault of a reader that it uses. -/
theorem error {r : Except Stop α} {s : Stop} (h : Blames Should r) (hs : r = .error s)
    (himp : ∀ rest, Should rest → Should' rest) :
    Blames Should' (.error s : Except Stop β) := by
  intro why rest heq
  cases heq
  exact h.imp himp why rest hs

end Blames

/-! ## Expressions -/

namespace Expr

/-- Expressions. -/
def phrase : Phrase := fun us => ∃ e, Derived us e

theorem phrase_literal : phrase [.ofQuoted "TRUE"] := ⟨_, .literal .yes⟩

theorem not_phrase_nil : ¬ phrase [] := by
  rintro ⟨e, he⟩
  exact he.ne_nil rfl

theorem definite_phrase : phrase.Definite := by
  rintro a a' x y ⟨e, he⟩ ⟨e', he'⟩ heq
  have hread := read_complete he x (Nat.le_max_left e.nesting e'.nesting)
  rw [heq, read_complete he' y (Nat.le_max_right e.nesting e'.nesting)] at hread
  cases hread
  exact List.append_cancel_right heq

theorem times_phrase {count : Nat} {us : List Token} :
    phrase.times count us ↔ ∃ es, AllDerived us es ∧ es.length = count := by
  induction count generalizing us with
  | zero =>
    constructor
    · rintro rfl
      exact ⟨[], .nil, rfl⟩
    · rintro ⟨es, hes, hlength⟩
      cases hes with
      | nil => rfl
      | cons _ _ => cases hlength
  | succ count ih =>
    constructor
    · rintro ⟨a, b, rfl, ⟨e, he⟩, hb⟩
      obtain ⟨es, hes, rfl⟩ := ih.mp hb
      exact ⟨e :: es, .cons he hes, rfl⟩
    · rintro ⟨es, hes, hlength⟩
      cases hes with
      | nil => cases hlength
      | cons he hes => exact ⟨_, _, rfl, ⟨_, he⟩, ih.mpr ⟨_, hes, Nat.succ.inj hlength⟩⟩

theorem phrase_negation {w : String} (hw : Keyword.of? w = some .negation) (a : List Token) :
    phrase (.ofWord w :: a) ↔ phrase a := by
  constructor
  · rintro ⟨_, h⟩
    cases h with
    | query hq => simp [hw] at hq
    | negation _ he => exact ⟨_, he⟩
    | numeric hop _ _ => simp [hw] at hop
    | logic hop _ _ => simp [hw] at hop
  · rintro ⟨e, he⟩
    exact ⟨_, .negation hw he⟩

theorem phrase_numeric {w : String} {op : NumericOp} (hw : Keyword.of? w = some (.numeric op))
    (a : List Token) : phrase (.ofWord w :: a) ↔ (phrase.followedBy phrase) a := by
  constructor
  · rintro ⟨_, h⟩
    cases h with
    | query hq => simp [hw] at hq
    | negation hn _ => simp [hw] at hn
    | numeric _ hl hr => exact ⟨_, _, rfl, ⟨_, hl⟩, ⟨_, hr⟩⟩
    | logic hop _ _ => simp [hw] at hop
  · rintro ⟨ls, rs, rfl, ⟨l, hl⟩, ⟨r, hr⟩⟩
    exact ⟨_, .numeric hw hl hr⟩

theorem phrase_logic {w : String} {op : LogicOp} (hw : Keyword.of? w = some (.logic op))
    (a : List Token) : phrase (.ofWord w :: a) ↔ (phrase.followedBy phrase) a := by
  constructor
  · rintro ⟨_, h⟩
    cases h with
    | query hq => simp [hw] at hq
    | negation hn _ => simp [hw] at hn
    | numeric hop _ _ => simp [hw] at hop
    | logic _ hl hr => exact ⟨_, _, rfl, ⟨_, hl⟩, ⟨_, hr⟩⟩
  · rintro ⟨ls, rs, rfl, ⟨l, hl⟩, ⟨r, hr⟩⟩
    exact ⟨_, .logic hw hl hr⟩

/-- What an expression can start with. -/
def Starts (t : Token) : Prop :=
  match t.kind with
  | .quoted => ∃ e, ofLiteral t = .ok e
  | .variable => True
  | .word => (∃ q, Keyword.of? t.text = some (.query q)) ∨ Keyword.of? t.text = some .negation ∨
      (∃ op, Keyword.of? t.text = some (.numeric op)) ∨ ∃ op, Keyword.of? t.text = some (.logic op)
  | .openBlock => False
  | .closeBlock => False

theorem Derived.starts {t : Token} {ts : List Token} {e : Expr} (h : Derived (t :: ts) e) :
    Starts t := by
  cases h with
  | literal hl => exact ⟨_, ofLiteral_of_literal hl⟩
  | «variable» => trivial
  | query hw => exact .inl ⟨_, hw⟩
  | negation hw _ => exact .inr (.inl hw)
  | numeric hw _ _ => exact .inr (.inr (.inl ⟨_, hw⟩))
  | logic hw _ _ => exact .inr (.inr (.inr ⟨_, hw⟩))

theorem stuck_here {t : Token} (h : ¬ Starts t) (ts : List Token) :
    phrase.Stuck (t :: ts) (t :: ts) := by
  refine .here phrase_literal ?_ not_phrase_nil
  rintro _ _ ⟨rfl, rfl⟩ b ⟨e, he⟩
  exact h he.starts

/-- The two operands of an operator, read by a reader that blames the right token for each. -/
theorem readPair_blames {limit : Nat} (hread : ∀ ts, Blames (phrase.Stuck ts) (read limit ts))
    (combine : Expr → Expr → Expr) (ts : List Token) :
    Blames ((phrase.followedBy phrase).Stuck ts) (match read limit ts with
      | .error s => .error s
      | .ok (l, ts₁) =>
        match read limit ts₁ with
        | .error s => .error s
        | .ok (r, ts₂) => .ok (combine l r, ts₂)) := by
  split
  · rename_i hl
    exact (hread ts).error hl fun _ h => h.first phrase_literal
  · rename_i l ts₁ hl
    split
    · rename_i hr
      obtain ⟨used, rfl, hused, -⟩ := read_sound hl
      exact (hread ts₁).error hr fun _ h => .second definite_phrase ⟨l, hused⟩ h
    · exact .ok _

theorem literal_isLocal {t : Token} {f : ParseFault} (h : ofLiteral t = .error f) :
    f.isLocal = true := by
  unfold ofLiteral at h
  split at h
  · cases h
  · split at h
    · cases h
    · split at h
      · cases h
        rfl
      · split at h
        · cases h
        · cases h
          rfl

theorem read_blames (limit : Nat) (ts : List Token) : Blames (phrase.Stuck ts) (read limit ts) := by
  induction limit generalizing ts with
  | zero => exact .tooDeep
  | succ limit ih =>
    cases ts with
    | nil => exact .fault rfl (.atEnd phrase_literal)
    | cons t ts =>
      simp only [read]
      split
      · rename_i hk
        split
        · rename_i f hf
          exact .fault (literal_isLocal hf) (stuck_here (by simp [Starts, hk, hf]) ts)
        · exact .ok _
      · exact .ok _
      · rename_i hk
        rw [eq_ofWord hk]
        split
        · exact .ok _
        · rename_i hw
          split
          · rename_i he
            exact (ih ts).error he fun _ h => h.cons (phrase_negation hw) not_phrase_nil
          · exact .ok _
        · rename_i op hw
          exact (readPair_blames ih _ ts).imp fun _ h => h.cons (phrase_numeric hw) not_phrase_nil
        · rename_i op hw
          exact (readPair_blames ih _ ts).imp fun _ h => h.cons (phrase_logic hw) not_phrase_nil
        · rename_i hquery hnegation hnumeric hlogic
          refine .fault rfl (stuck_here ?_ ts)
          rintro (⟨q, hw⟩ | hw | ⟨op, hw⟩ | ⟨op, hw⟩)
          · exact hquery q hw
          · exact hnegation hw
          · exact hnumeric op hw
          · exact hlogic op hw
      · rename_i hk
        exact .fault rfl (stuck_here (by simp [Starts, hk]) ts)
      · rename_i hk
        exact .fault rfl (stuck_here (by simp [Starts, hk]) ts)

theorem readMany_blames (limit count : Nat) (ts : List Token) :
    Blames ((phrase.times count).Stuck ts) (readMany limit count ts) := by
  induction count generalizing ts with
  | zero => exact .ok _
  | succ count ih =>
    simp only [readMany]
    split
    · rename_i he
      obtain ⟨us, hus⟩ := Phrase.times_of_all phrase_literal count
      exact (read_blames limit ts).error he fun _ h => h.first hus
    · rename_i e ts₁ he
      split
      · rename_i hes
        obtain ⟨used, rfl, hused, -⟩ := read_sound he
        exact (ih ts₁).error hes fun _ h => .second definite_phrase ⟨e, hused⟩ h
      · exact .ok _

end Expr

end TurtleGraphics
