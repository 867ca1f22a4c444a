import Mathlib.Data.List.Nodup
import TurtleGraphics.Proofs.Grammar
import TurtleGraphics.Syntax.Parse

/-!
# TurtleGraphics.Proofs.ReadSound

Whatever a reader accepts is derived from the tokens that it has taken, and is nested no deeper
than its limit.

Every lemma has the same form: the tokens given to the reader are those it has used, which derive
the tree, followed by those it has left. A block is sought by its closing bracket and a body by its
`END`; the lengths found there say that the statements inside have used up exactly what stands
before.
-/

namespace TurtleGraphics

namespace Expr

theorem literal_of_ofLiteral {t : Token} {e : Expr} (h : ofLiteral t = .ok e) :
    Literal t.text e := by
  simp only [ofLiteral] at h
  split at h
  · rename_i ht; cases h; rw [ht]; exact .yes
  · rename_i hyes
    split at h
    · rename_i ht; cases h; rw [ht]; exact .no
    · rename_i hno
      split at h
      · cases h
      · rename_i x hx
        split at h
        · rename_i hf; cases h; exact .number hyes hno hx hf
        · cases h

theorem nesting_of_literal {text : String} {e : Expr} (h : Literal text e) : e.nesting = 1 := by
  cases h <;> rfl

theorem eq_ofWord {t : Token} (h : t.kind = .word) : t = .ofWord t.text := by
  cases t; cases h; rfl

theorem eq_ofQuoted {t : Token} (h : t.kind = .quoted) : t = .ofQuoted t.text := by
  cases t; cases h; rfl

theorem eq_variable {t : Token} (h : t.kind = .variable) : t = ⟨.variable, t.text⟩ := by
  cases t; cases h; rfl

/-- The two operands of an operator, read by a reader that is sound for each. -/
theorem readPair_sound {limit : Nat}
    (hread : ∀ {ts rest e}, read limit ts = .ok (e, rest) →
      ∃ used, ts = used ++ rest ∧ Derived used e ∧ e.nesting ≤ limit)
    {combine : Expr → Expr → Expr} {ts rest : List Token} {e : Expr}
    (h : (match read limit ts with
      | .error s => .error s
      | .ok (l, ts₁) =>
        match read limit ts₁ with
        | .error s => .error s
        | .ok (r, ts₂) => .ok (combine l r, ts₂)) = Except.ok (e, rest)) :
    ∃ l r ls rs, e = combine l r ∧ ts = ls ++ rs ++ rest ∧ Derived ls l ∧ Derived rs r ∧
      max l.nesting r.nesting ≤ limit := by
  split at h
  · cases h
  · rename_i l ts₁ hl
    split at h
    · cases h
    · rename_i r ts₂ hr
      cases h
      obtain ⟨ls, rfl, hdl, hnl⟩ := hread hl
      obtain ⟨rs, rfl, hdr, hnr⟩ := hread hr
      exact ⟨l, r, ls, rs, rfl, by simp, hdl, hdr, by omega⟩

theorem read_sound {limit : Nat} {ts rest : List Token} {e : Expr}
    (h : read limit ts = .ok (e, rest)) :
    ∃ used, ts = used ++ rest ∧ Derived used e ∧ e.nesting ≤ limit := by
  induction limit generalizing ts rest e with
  | zero => cases h
  | succ limit ih =>
    cases ts with
    | nil => cases h
    | cons t ts =>
      simp only [read] at h
      split at h
      · rename_i hk
        split at h
        · cases h
        · rename_i e' he
          cases h
          have hl := literal_of_ofLiteral he
          refine ⟨[t], rfl, ?_, by rw [nesting_of_literal hl]; omega⟩
          rw [eq_ofQuoted hk]
          exact .literal hl
      · rename_i hk
        cases h
        refine ⟨[t], rfl, ?_, by simp [nesting]⟩
        rw [eq_variable hk]
        exact .variable
      · rename_i hk
        split at h
        · rename_i q hw
          cases h
          refine ⟨[t], rfl, ?_, by simp [nesting]⟩
          rw [eq_ofWord hk]
          exact .query hw
        · rename_i hw
          split at h
          · cases h
          · rename_i e' rest₁ he
            cases h
            obtain ⟨used, rfl, hd, hn⟩ := ih he
            refine ⟨t :: used, rfl, ?_, by simp only [nesting]; omega⟩
            rw [eq_ofWord hk]
            exact .negation hw hd
        · rename_i op hw
          obtain ⟨l, r, ls, rs, rfl, rfl, hl, hr, hn⟩ := readPair_sound ih h
          refine ⟨t :: (ls ++ rs), by simp, ?_, by simp only [nesting]; omega⟩
          rw [eq_ofWord hk]
          exact .numeric hw hl hr
        · rename_i op hw
          obtain ⟨l, r, ls, rs, rfl, rfl, hl, hr, hn⟩ := readPair_sound ih h
          refine ⟨t :: (ls ++ rs), by simp, ?_, by simp only [nesting]; omega⟩
          rw [eq_ofWord hk]
          exact .logic hw hl hr
        · cases h
      · cases h
      · cases h

theorem readMany_sound {limit count : Nat} {ts rest : List Token} {es : List Expr}
    (h : readMany limit count ts = .ok (es, rest)) :
    ∃ used, ts = used ++ rest ∧ AllDerived used es ∧ es.length = count ∧
      allNesting es ≤ limit := by
  induction count generalizing ts rest es with
  | zero => cases h; exact ⟨[], rfl, .nil, rfl, Nat.zero_le _⟩
  | succ count ih =>
    simp only [readMany] at h
    split at h
    · cases h
    · rename_i e rest₁ he
      split at h
      · cases h
      · rename_i es' rest₂ hes
        cases h
        obtain ⟨us, rfl, hd, hn⟩ := read_sound he
        obtain ⟨vs, rfl, hds, hc, hns⟩ := ih hes
        refine ⟨us ++ vs, by simp, .cons hd hds, by simp [hc], ?_⟩
        simp only [allNesting]
        omega

end Expr

/-! ## Statements -/

section

variable {d : Declarations} {limit : Nat} {one : List Token → Except Stop (Stmt × List Token)}

/-- What the lemmas below ask of the reader of one statement. -/
def ReadsStatements (d : Declarations) (limit : Nat)
    (one : List Token → Except Stop (Stmt × List Token)) : Prop :=
  ∀ ts s rest, one ts = .ok (s, rest) →
    ∃ used, ts = used ++ rest ∧ Stmt.Derived d used s ∧ s.nesting ≤ limit

theorem sequence_sound (hone : ReadsStatements d limit one) {n : Nat} {ts rest : List Token}
    {ss : List Stmt} (h : sequence one n ts = .ok (ss, rest)) :
    ∃ used, ts = used ++ rest ∧ used.length = n ∧ Stmt.AllDerived d used ss ∧
      Stmt.allNesting ss ≤ limit := by
  induction n using Nat.strongRecOn generalizing ts rest ss with
  | ind n ih =>
    cases n with
    | zero =>
      rw [sequence] at h
      cases h
      exact ⟨[], rfl, rfl, .nil, Nat.zero_le _⟩
    | succ n =>
      cases ts with
      | nil => rw [sequence] at h; cases h
      | cons t ts =>
        rw [sequence] at h
        split at h
        · cases h
        · rename_i s rest₁ hs
          obtain ⟨us, hus, hd, hn⟩ := hone _ _ _ hs
          obtain ⟨u, us, rfl⟩ := List.exists_cons_of_ne_nil hd.ne_nil
          obtain ⟨rfl, hts⟩ := List.cons.inj (hus.trans (List.cons_append ..))
          have hmore : ts.length - rest₁.length = us.length := by simp [hts]
          simp only [hmore] at h
          split at h
          · rename_i hle
            split at h
            · cases h
            · rename_i ss' rest₂ hss
              cases h
              obtain ⟨vs, rfl, hlen, hds, hns⟩ := ih (n - us.length) (by omega) hss
              refine ⟨t :: us ++ vs, by simp [hts], by simp [hlen]; omega, .cons hd hds, ?_⟩
              simp only [Stmt.allNesting]
              omega
          · cases h

theorem readBlock_sound (hone : ReadsStatements d limit one) {ts rest : List Token}
    {block : List Stmt} (h : readBlock one ts = .ok (block, rest)) :
    ∃ (opener closer : Token) (bs : List Token), ts = opener :: (bs ++ closer :: rest) ∧
      opener.kind = .openBlock ∧ Stmt.AllDerived d bs block ∧ closer.kind = .closeBlock ∧
      Stmt.allNesting block ≤ limit := by
  cases ts with
  | nil => cases h
  | cons t ts =>
    simp only [readBlock] at h
    split at h
    · rename_i hk
      split at h
      · cases h
      · rename_i n hn
        split at h
        · cases h
        · rename_i block' rest₁ hs
          cases h
          obtain ⟨bs, rfl, hlen, hd, hnest⟩ := sequence_sound hone hs
          obtain ⟨inner, closer, us, hsplit, hinner, hclose⟩ := closingOffset?_eq_some hn
          obtain ⟨rfl, rfl⟩ := List.append_inj hsplit (by omega)
          exact ⟨t, closer, bs, rfl, hk, hd, hclose, hnest⟩
    · cases h

theorem readGuarded_sound (hone : ReadsStatements d limit one) {ts rest : List Token} {c : Expr}
    {block : List Stmt} (h : readGuarded limit one ts = .ok (c, block, rest)) :
    ∃ (opener closer : Token) (cs bs : List Token),
      ts = cs ++ opener :: (bs ++ [closer]) ++ rest ∧ Expr.Derived cs c ∧
      opener.kind = .openBlock ∧ Stmt.AllDerived d bs block ∧ closer.kind = .closeBlock ∧
      max c.nesting (Stmt.allNesting block) ≤ limit := by
  simp only [readGuarded] at h
  split at h
  · cases h
  · rename_i c' rest₁ hc
    split at h
    · cases h
    · rename_i block' rest₂ hb
      cases h
      obtain ⟨cs, rfl, hdc, hnc⟩ := Expr.read_sound hc
      obtain ⟨opener, closer, bs, rfl, ho, hdb, hcl, hnb⟩ := readBlock_sound hone hb
      exact ⟨opener, closer, cs, bs, by simp, hdc, ho, hdb, hcl, by omega⟩

theorem readCommand_sound {w : String} {v : Verb} {ts rest : List Token} {s : Stmt}
    (hw : Keyword.of? w = some (.command v)) (h : readCommand limit v ts = .ok (s, rest)) :
    ∃ used, ts = used ++ rest ∧ Stmt.Derived d (.ofWord w :: used) s ∧
      s.nesting ≤ limit + 1 := by
  simp only [readCommand] at h
  split at h
  · rename_i hname
    split at h
    · cases h
    · rename_i t ts
      split at h
      · rename_i hk
        split at h
        · cases h
        · rename_i es rest₁ hes
          cases h
          obtain ⟨us, rfl, hds, hlen, hn⟩ := Expr.readMany_sound hes
          have hone : v.arity = 1 := by cases v <;> simp_all [Verb.takesName, Verb.arity]
          obtain ⟨e, rfl⟩ := List.length_eq_one_iff.mp (hlen.trans hone)
          cases hds with
          | @cons us _ _ _ he hnil =>
            cases hnil
            refine ⟨t :: us, by simp, ?_, by simpa [Stmt.nesting] using hn⟩
            rw [Expr.eq_ofQuoted hk]
            exact .assignment hw hname he
      · cases h
  · rename_i hname
    split at h
    · cases h
    · rename_i es rest₁ hes
      cases h
      obtain ⟨us, rfl, hds, hlen, hn⟩ := Expr.readMany_sound hes
      exact ⟨us, rfl, .command hw (by simpa using hname) hds hlen, by simpa [Stmt.nesting] using hn⟩

end

/-- No reserved word has been declared as a procedure. -/
def Declarations.Unreserved (d : Declarations) : Prop :=
  ∀ name n, d.arity? name = some n → isReserved name = false

theorem Declarations.Unreserved.nil : Declarations.Unreserved [] := by
  intro name n h; cases h

theorem Declarations.Unreserved.cons {d : Declarations} (h : d.Unreserved) {name : String}
    (hname : isReserved name = false) (n : Nat) : Declarations.Unreserved ((name, n) :: d) := by
  intro other k hk
  simp only [Declarations.arity?, List.lookup_cons] at hk
  split at hk
  · rename_i heq; rw [beq_iff_eq.mp heq]; exact hname
  · exact h other k hk

theorem Stmt.read_sound {d : Declarations} (hd : d.Unreserved) (limit : Nat) :
    ReadsStatements d limit (Stmt.read d limit) := by
  induction limit with
  | zero => intro ts s rest h; cases h
  | succ limit ih =>
    intro ts s rest h
    cases ts with
    | nil => cases h
    | cons t ts =>
      simp only [Stmt.read] at h
      split at h
      · cases h
      · rename_i hk
        rw [Expr.eq_ofWord hk]
        split at h
        · rename_i v hw
          obtain ⟨used, rfl, hds, hn⟩ := readCommand_sound (d := d) hw h
          exact ⟨_, rfl, hds, hn⟩
        · rename_i hw
          split at h
          · cases h
          · rename_i c block rest₁ hg
            cases h
            obtain ⟨opener, closer, cs, bs, rfl, hc, ho, hb, hcl, hn⟩ := readGuarded_sound ih hg
            exact ⟨_, rfl, .ifThen hw hc ho hb hcl, by simp only [Stmt.nesting]; omega⟩
        · rename_i hw
          split at h
          · cases h
          · rename_i c block rest₁ hg
            cases h
            obtain ⟨opener, closer, cs, bs, rfl, hc, ho, hb, hcl, hn⟩ := readGuarded_sound ih hg
            exact ⟨_, rfl, .whileDo hw hc ho hb hcl, by simp only [Stmt.nesting]; omega⟩
        · cases h
        · cases h
        · split at h
          · rename_i count hcount
            split at h
            · cases h
            · rename_i es rest₁ hes
              cases h
              obtain ⟨used, rfl, hds, rfl, hn⟩ := Expr.readMany_sound hes
              exact ⟨_, rfl, .call (hd _ _ hcount) hcount hds, by simpa [Stmt.nesting] using hn⟩
          · cases h
      · cases h
      · cases h
      · cases h

/-! ## Definitions and scripts -/

theorem isParameter_iff {d : Declarations} {procedure : String} {t : Token} :
    isParameter d procedure t = true ↔ d.AllowsParameter procedure t := by
  cases hk : t.kind <;>
    simp [isParameter, Declarations.AllowsParameter, hk, and_assoc, and_left_comm, and_comm]

theorem readParameters_sound {d : Declarations} {procedure : String} {taken ps : List String}
    {ts rest : List Token} (htaken : taken.Nodup)
    (h : readParameters d procedure taken ts = .ok (ps, rest)) :
    ∃ used, ts = used ++ rest ∧ ps = taken.reverse ++ used.map Token.text ∧ ps.Nodup ∧
      ∀ t ∈ used, d.AllowsParameter procedure t := by
  induction ts generalizing taken with
  | nil =>
    cases h
    exact ⟨[], rfl, by simp, by simpa using List.nodup_reverse.mpr htaken, by simp⟩
  | cons t ts ih =>
    rw [readParameters] at h
    split at h
    · rename_i hp
      split at h
      · cases h
      · rename_i hnew
        have hnodup : (t.text :: taken).Nodup :=
          List.nodup_cons.mpr ⟨by simpa using hnew, htaken⟩
        obtain ⟨used, rfl, rfl, hps, hall⟩ := ih hnodup h
        refine ⟨t :: used, rfl, by simp, hps, ?_⟩
        intro u hu
        rcases List.mem_cons.mp hu with rfl | hu
        · exact isParameter_iff.mp hp
        · exact hall u hu
    · cases h
      exact ⟨[], rfl, by simp, by simpa using List.nodup_reverse.mpr htaken, by simp⟩

theorem eq_ofWord_of_isEnd {t : Token} (h : isEnd t = true) :
    t = .ofWord t.text ∧ Keyword.of? t.text = some .procedureEnd := by
  simp only [isEnd, Bool.and_eq_true, beq_iff_eq] at h
  exact ⟨Expr.eq_ofWord h.1, h.2⟩

/-- Behind the heading of a definition stand its body, as long as the heading says, and `END`. -/
theorem readHeading_sound {d : Declarations} {ts : List Token} {h : Heading}
    (hread : readHeading d ts = .ok h) :
    ∃ (ps bs us : List Token) (stop : String),
      ts = .ofWord h.name :: (ps ++ h.rest) ∧ h.rest = bs ++ .ofWord stop :: us ∧
      bs.length = h.bodyLength ∧ isReserved h.name = false ∧ h.parameters = ps.map Token.text ∧
      h.parameters.Nodup ∧ (∀ t ∈ ps, d.AllowsParameter h.name t) ∧
      Keyword.of? stop = some .procedureEnd := by
  cases ts with
  | nil => cases hread
  | cons t ts =>
    simp only [readHeading] at hread
    split at hread
    · rename_i hk
      split at hread
      · cases hread
      · rename_i hres
        split at hread
        · cases hread
        · rename_i ps rest₁ hps
          split at hread
          · cases hread
          · rename_i n hn
            cases hread
            obtain ⟨used, rfl, hpseq, hnodup, hall⟩ := readParameters_sound List.nodup_nil hps
            obtain ⟨hlt, hend, -⟩ := List.findIdx?_eq_some_iff_getElem.mp hn
            obtain ⟨hword, hstop⟩ := eq_ofWord_of_isEnd hend
            have hrest : rest₁ = rest₁.take n ++ .ofWord rest₁[n].text :: rest₁.drop (n + 1) := by
              rw [← hword, ← List.drop_eq_getElem_cons hlt, List.take_append_drop]
            refine ⟨used, rest₁.take n, rest₁.drop (n + 1), rest₁[n].text, ?_, hrest,
              List.length_take_of_le (Nat.le_of_lt hlt), by simpa using hres, by simpa using hpseq,
              hnodup, hall, hstop⟩
            rw [← Expr.eq_ofWord hk]
    · cases hread

theorem readDefinition_sound {limit : Nat} {d d₁ : Declarations} (hd : d.Unreserved)
    {ts rest : List Token} {s : Stmt}
    (h : readDefinition limit d ts = (.ok (s, rest), d₁)) :
    ∃ (name stop : String) (ps bs : List Token) (body : List Stmt),
      ts = .ofWord name :: (ps ++ (bs ++ .ofWord stop :: rest)) ∧
      s = .define name (ps.map Token.text) body ∧ d₁ = (name, ps.length) :: d ∧
      isReserved name = false ∧ (∀ t ∈ ps, d.AllowsParameter name t) ∧
      (ps.map Token.text).Nodup ∧ Stmt.AllDerived d₁ bs body ∧
      Keyword.of? stop = some .procedureEnd ∧ Stmt.allNesting body ≤ limit := by
  simp only [readDefinition] at h
  split at h
  · cases h
  · rename_i g hg
    split at h
    · cases h
    · rename_i body rest₁ hbody
      cases h
      obtain ⟨ps, bs, us, stop, rfl, hrest, hlen, hres, hps, hnodup, hall, hstop⟩ :=
        readHeading_sound hg
      have hlength : g.parameters.length = ps.length := by simp [hps]
      rw [hlength] at hbody ⊢
      obtain ⟨used, hused, hulen, hds, hn⟩ :=
        sequence_sound (Stmt.read_sound (hd.cons hres ps.length) limit) hbody
      obtain ⟨rfl, rfl⟩ := List.append_inj (hrest.symm.trans hused) (by omega)
      rw [hps] at hnodup ⊢
      exact ⟨g.name, stop, ps, bs, body, by rw [hrest]; rfl, rfl, rfl, hres, hall, hnodup, hds,
        hstop, hn⟩

/-- A statement of the top level goes before any script that is derived behind its declarations. -/
theorem readTop_sound {limit : Nat} {d d₁ : Declarations} (hd : d.Unreserved)
    {ts rest : List Token} {s : Stmt} (h : Stmt.readTop limit d ts = (.ok (s, rest), d₁)) :
    ∃ used, ts = used ++ rest ∧ used ≠ [] ∧ s.nesting ≤ limit ∧ d₁.Unreserved ∧
      ∀ us ss, Script.Derived d₁ us ss → Script.Derived d (used ++ us) (s :: ss) := by
  cases ts with
  | nil => cases h
  | cons t ts =>
    rw [Stmt.readTop] at h
    split at h
    · rename_i hto
      obtain ⟨name, stop, ps, bs, body, rfl, rfl, rfl, hres, hall, hnodup, hds, hstop, hn⟩ :=
        readDefinition_sound hd h
      refine ⟨t :: .ofWord name :: (ps ++ (bs ++ [.ofWord stop])), by simp, by simp, hn,
        hd.cons hres _, ?_⟩
      intro us ss hss
      rw [Expr.eq_ofWord hto.1]
      simpa using Script.Derived.definition hto.2 hres hall hnodup hds hstop hss
    · obtain ⟨hs, rfl⟩ := Prod.mk.inj h
      obtain ⟨used, hused, hds, hn⟩ := Stmt.read_sound hd limit _ _ _ hs
      exact ⟨used, hused, hds.ne_nil, hn, hd, fun us ss hss => .statement hds hss⟩

theorem topSequence_sound {limit n : Nat} {d d₁ : Declarations} (hd : d.Unreserved)
    {ts rest : List Token} {ss : List Stmt}
    (h : topSequence limit d n ts = (.ok (ss, rest), d₁)) :
    ∃ used, ts = used ++ rest ∧ used.length = n ∧ Script.Derived d used ss ∧
      Stmt.allNesting ss ≤ limit := by
  induction n using Nat.strongRecOn generalizing d ts ss with
  | ind n ih =>
    cases n with
    | zero =>
      rw [topSequence] at h
      cases h
      exact ⟨[], rfl, rfl, .nil, Nat.zero_le _⟩
    | succ n =>
      cases ts with
      | nil => rw [topSequence] at h; cases h
      | cons t ts =>
        rw [topSequence] at h
        split at h
        · cases h
        · rename_i s rest₁ d₂ hs
          obtain ⟨us, hus, hne, hn, hd₂, hput⟩ := readTop_sound hd hs
          obtain ⟨u, us, rfl⟩ := List.exists_cons_of_ne_nil hne
          obtain ⟨rfl, hts⟩ := List.cons.inj (hus.trans (List.cons_append ..))
          have hmore : ts.length - rest₁.length = us.length := by simp [hts]
          simp only [hmore] at h
          split at h
          · rename_i hle
            split at h
            · cases h
            · rename_i ss' rest₂ d₃ hss
              cases h
              obtain ⟨vs, rfl, hlen, hds, hns⟩ := ih (n - us.length) (by omega) hd₂ hss
              refine ⟨t :: us ++ vs, by simp [hts], by simp [hlen]; omega, hput _ _ hds, ?_⟩
              simp only [Stmt.allNesting]
              omega
          · cases h

/-- A script that is parsed is derived from all the tokens. -/
theorem derived_of_parse {limit : Nat} {tokens : List Token} {script : Script}
    (h : (parse limit tokens).1 = .ok script) :
    Script.Derived [] tokens script ∧ Stmt.allNesting script ≤ limit := by
  simp only [parse] at h
  split at h
  · cases h
  · rename_i script' rest d hs
    cases h
    obtain ⟨used, hused, hlen, hds, hn⟩ := topSequence_sound .nil hs
    obtain ⟨rfl, -⟩ := List.append_inj ((List.append_nil _).trans hused) hlen.symm
    exact ⟨hds, hn⟩

end TurtleGraphics
