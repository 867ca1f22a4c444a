import TurtleGraphics.Proofs.ReadSound

/-!
# TurtleGraphics.Proofs.ReadComplete

Whatever is derived is read, if the limit is as high as the tree is nested.

The parser finds the end of a block and of a body before it reads what stands inside. That it finds
the right ends rests on two facts about derived statements: their brackets are balanced
(`Stmt.Derived.balanced`) and they contain no `END` (`Stmt.Derived.not_isEnd`). The parameters of a
definition end where its body starts because no statement starts with a token that could be a
parameter (`Stmt.Derived.not_isParameter`).
-/

namespace TurtleGraphics

namespace Expr

theorem ofLiteral_of_literal {text : String} {e : Expr} (h : Literal text e) :
    ofLiteral (.ofQuoted text) = .ok e := by
  cases h with
  | yes => rfl
  | no => rfl
  | number hyes hno hx hf => simp [ofLiteral, Token.ofQuoted, hyes, hno, hx, hf]

theorem read_complete {used : List Token} {e : Expr} (h : Derived used e) :
    ∀ {limit : Nat} (rest : List Token), e.nesting ≤ limit →
      read limit (used ++ rest) = .ok (e, rest) := by
  induction h with
  | literal hl =>
    intro limit rest hn
    rw [nesting_of_literal hl] at hn
    obtain ⟨limit, rfl⟩ := Nat.exists_eq_add_of_le' hn
    have hof := ofLiteral_of_literal hl
    rw [Token.ofQuoted] at hof
    rw [List.singleton_append, Token.ofQuoted, read]
    simp only [hof]
  | «variable» =>
    intro limit rest hn
    obtain ⟨limit, rfl⟩ := Nat.exists_eq_add_of_le' hn
    rfl
  | query hw =>
    intro limit rest hn
    simp only [nesting] at hn
    obtain ⟨limit, rfl⟩ := Nat.exists_eq_add_of_le' hn
    rw [List.singleton_append, read]
    simp only [Token.ofWord, hw]
  | negation hw _ ih =>
    intro limit rest hn
    simp only [nesting] at hn
    obtain ⟨limit, rfl⟩ := Nat.exists_eq_add_of_le' (Nat.le_of_add_left_le hn)
    rw [List.cons_append, read]
    simp only [Token.ofWord, hw, ih rest (by omega : _ ≤ limit)]
  | numeric hw _ _ ihl ihr =>
    intro limit rest hn
    simp only [nesting] at hn
    obtain ⟨limit, rfl⟩ := Nat.exists_eq_add_of_le' (Nat.le_of_add_left_le hn)
    rw [List.cons_append, List.append_assoc, read]
    simp only [Token.ofWord, hw, ihl _ (by omega : _ ≤ limit), ihr rest (by omega : _ ≤ limit)]
  | logic hw _ _ ihl ihr =>
    intro limit rest hn
    simp only [nesting] at hn
    obtain ⟨limit, rfl⟩ := Nat.exists_eq_add_of_le' (Nat.le_of_add_left_le hn)
    rw [List.cons_append, List.append_assoc, read]
    simp only [Token.ofWord, hw, ihl _ (by omega : _ ≤ limit), ihr rest (by omega : _ ≤ limit)]

theorem readMany_complete {limit : Nat} {used : List Token} {es : List Expr}
    (h : AllDerived used es) (rest : List Token) (hn : allNesting es ≤ limit) :
    readMany limit es.length (used ++ rest) = .ok (es, rest) := by
  induction h with
  | nil => rfl
  | cons he _ ih =>
    simp only [allNesting] at hn
    rw [List.length_cons, readMany, List.append_assoc, read_complete he _ (by omega)]
    simp only [ih (by omega)]

end Expr

/-! ## Brackets and ends -/

theorem balanced_of_isInner {ts : List Token} (h : ∀ t ∈ ts, t.IsInner) : Balanced ts :=
  .of_plain fun t ht => (h t ht).1

theorem balanced_of_guarded {w : String} {opener closer : Token} {cs bs : List Token}
    (hc : ∀ t ∈ cs, t.IsInner) (ho : opener.kind = .openBlock) (hb : Balanced bs)
    (hcl : closer.kind = .closeBlock) :
    Balanced (.ofWord w :: (cs ++ opener :: (bs ++ [closer]))) :=
  .plain rfl ((balanced_of_isInner hc).append (.block ho hcl hb .nil))

mutual

theorem Stmt.Derived.balanced {d : Declarations} {ts : List Token} {s : Stmt} :
    Stmt.Derived d ts s → Balanced ts
  | .command _ _ hes _ => .plain rfl (balanced_of_isInner hes.isInner)
  | .assignment _ _ he => .plain rfl (.plain rfl (balanced_of_isInner he.isInner))
  | .ifThen _ hc ho hb hcl => balanced_of_guarded hc.isInner ho hb.balanced hcl
  | .whileDo _ hc ho hb hcl => balanced_of_guarded hc.isInner ho hb.balanced hcl
  | .call _ _ hes => .plain rfl (balanced_of_isInner hes.isInner)

theorem Stmt.AllDerived.balanced {d : Declarations} {ts : List Token} {ss : List Stmt} :
    Stmt.AllDerived d ts ss → Balanced ts
  | .nil => .nil
  | .cons hs hss => hs.balanced.append hss.balanced

end

theorem isEnd_of_kind {t : Token} (h : t.kind ≠ .word) : isEnd t = false := by
  simp [isEnd, h]

theorem not_isEnd_of_guarded {w : String} {opener closer : Token} {cs bs : List Token}
    (hw : Keyword.of? w ≠ some .procedureEnd) (hc : ∀ t ∈ cs, t.IsInner)
    (ho : opener.kind = .openBlock) (hb : ∀ t ∈ bs, isEnd t = false)
    (hcl : closer.kind = .closeBlock) :
    ∀ t ∈ (.ofWord w :: (cs ++ opener :: (bs ++ [closer])) : List Token), isEnd t = false := by
  intro t ht
  simp only [List.mem_cons, List.mem_append, List.not_mem_nil, or_false] at ht
  rcases ht with rfl | ht | rfl | ht | rfl
  · exact isEnd_ofWord hw
  · exact (hc t ht).2
  · exact isEnd_of_kind (by simp [ho])
  · exact hb t ht
  · exact isEnd_of_kind (by simp [hcl])

mutual

theorem Stmt.Derived.not_isEnd {d : Declarations} {ts : List Token} {s : Stmt} :
    Stmt.Derived d ts s → ∀ t ∈ ts, isEnd t = false
  | .command hw _ hes _, t, ht => by
    rcases List.mem_cons.mp ht with rfl | ht
    · exact isEnd_ofWord (by simp [hw])
    · exact (hes.isInner t ht).2
  | .assignment hw _ he, t, ht => by
    simp only [List.mem_cons] at ht
    rcases ht with rfl | rfl | ht
    · exact isEnd_ofWord (by simp [hw])
    · rfl
    · exact (he.isInner t ht).2
  | .ifThen hw hc ho hb hcl, t, ht =>
    not_isEnd_of_guarded (by simp [hw]) hc.isInner ho hb.not_isEnd hcl t ht
  | .whileDo hw hc ho hb hcl, t, ht =>
    not_isEnd_of_guarded (by simp [hw]) hc.isInner ho hb.not_isEnd hcl t ht
  | .call hname _ hes, t, ht => by
    rcases List.mem_cons.mp ht with rfl | ht
    · exact isEnd_ofWord (by simp [of?_eq_none_of_unreserved hname])
    · exact (hes.isInner t ht).2

theorem Stmt.AllDerived.not_isEnd {d : Declarations} {ts : List Token} {ss : List Stmt} :
    Stmt.AllDerived d ts ss → ∀ t ∈ ts, isEnd t = false
  | .nil, t, ht => by cases ht
  | .cons hs hss, t, ht => (List.mem_append.mp ht).elim (hs.not_isEnd t) (hss.not_isEnd t)

end

/-! ## Statements -/

section

variable {d : Declarations} {limit : Nat} {one : List Token → Except Stop (Stmt × List Token)}

/-- What the lemmas below ask of the reader of one statement. -/
def ReadsDerived (d : Declarations) (limit : Nat)
    (one : List Token → Except Stop (Stmt × List Token)) : Prop :=
  ∀ used s rest, Stmt.Derived d used s → s.nesting ≤ limit → one (used ++ rest) = .ok (s, rest)

theorem sequence_complete (hone : ReadsDerived d limit one) :
    ∀ {ss : List Stmt} {used : List Token} (rest : List Token), Stmt.AllDerived d used ss →
      Stmt.allNesting ss ≤ limit → sequence one used.length (used ++ rest) = .ok (ss, rest) := by
  intro ss
  induction ss with
  | nil =>
    intro used rest h _
    cases h
    rw [List.length_nil, sequence, List.nil_append]
  | cons s ss ih =>
    intro used rest h hn
    simp only [Stmt.allNesting] at hn
    cases h with
    | @cons ts us _ _ hs hss =>
      obtain ⟨t, ts, rfl⟩ := List.exists_cons_of_ne_nil hs.ne_nil
      have hread := hone _ _ (us ++ rest) hs (by omega)
      have hmore : (ts ++ (us ++ rest)).length - (us ++ rest).length = ts.length := by simp
      have hleft : (ts ++ us).length - ts.length = us.length := by simp
      rw [List.cons_append, List.length_cons, List.cons_append, sequence, List.append_assoc]
      rw [List.cons_append] at hread
      simp only [hread, hmore, hleft, ih rest hss (by omega)]
      rw [if_pos (by simp)]

theorem readBlock_complete (hone : ReadsDerived d limit one) {opener closer : Token}
    {bs : List Token} {block : List Stmt} (ho : opener.kind = .openBlock)
    (hb : Stmt.AllDerived d bs block) (hcl : closer.kind = .closeBlock)
    (hn : Stmt.allNesting block ≤ limit) (rest : List Token) :
    readBlock one (opener :: (bs ++ closer :: rest)) = .ok (block, rest) := by
  have hoff : closingOffset? 0 (bs ++ closer :: rest) = some bs.length := by
    rw [hb.balanced.closingOffset?_append, closingOffset?_close_zero hcl]
    simp
  rw [readBlock, if_pos ho, hoff]
  simp only [sequence_complete hone _ hb hn, List.drop_one, List.tail_cons]

theorem readGuarded_complete (hone : ReadsDerived d limit one) {opener closer : Token}
    {cs bs : List Token} {c : Expr} {block : List Stmt} (hc : Expr.Derived cs c)
    (ho : opener.kind = .openBlock) (hb : Stmt.AllDerived d bs block)
    (hcl : closer.kind = .closeBlock) (hn : max c.nesting (Stmt.allNesting block) ≤ limit)
    (rest : List Token) :
    readGuarded limit one (cs ++ opener :: (bs ++ [closer]) ++ rest) = .ok (c, block, rest) := by
  have hsplit : cs ++ opener :: (bs ++ [closer]) ++ rest =
      cs ++ (opener :: (bs ++ closer :: rest)) := by simp
  rw [hsplit, readGuarded, Expr.read_complete hc _ (by omega)]
  simp only [readBlock_complete hone ho hb hcl (by omega) rest]

end

theorem Stmt.read_complete (d : Declarations) (limit : Nat) :
    ReadsDerived d limit (Stmt.read d limit) := by
  induction limit with
  | zero =>
    intro used s rest h hn
    cases h <;> simp [Stmt.nesting] at hn
  | succ limit ih =>
    intro used s rest h hn
    cases h with
    | command hw hname hes hlen =>
      simp only [Stmt.nesting] at hn
      rw [List.cons_append, Stmt.read]
      simp only [Token.ofWord, hw, readCommand, hname, ← hlen,
        Expr.readMany_complete hes rest (by omega : _ ≤ limit)]
      rfl
    | @assignment w v name ts e hw hname he =>
      simp only [Stmt.nesting] at hn
      have hone : v.arity = [e].length := by cases v <;> simp_all [Verb.takesName, Verb.arity]
      have hes : Expr.AllDerived (ts ++ []) [e] := .cons he .nil
      rw [List.append_nil] at hes
      rw [List.cons_append, List.cons_append, Stmt.read]
      simp only [Token.ofWord, hw, readCommand, hname, if_true, Token.ofQuoted, hone,
        Expr.readMany_complete hes rest (by omega : _ ≤ limit)]
    | ifThen hw hc ho hb hcl =>
      simp only [Stmt.nesting] at hn
      rw [List.cons_append, Stmt.read]
      simp only [Token.ofWord, hw, readGuarded_complete ih hc ho hb hcl (by omega) rest]
    | whileDo hw hc ho hb hcl =>
      simp only [Stmt.nesting] at hn
      rw [List.cons_append, Stmt.read]
      simp only [Token.ofWord, hw, readGuarded_complete ih hc ho hb hcl (by omega) rest]
    | call hname hcount hes =>
      simp only [Stmt.nesting] at hn
      rw [List.cons_append, Stmt.read]
      simp only [Token.ofWord, of?_eq_none_of_unreserved hname, hcount,
        Expr.readMany_complete hes rest (by omega : _ ≤ limit)]

/-! ## Definitions and scripts -/

theorem not_isParameter_of_reserved {d : Declarations} {procedure w : String}
    (h : isReserved w = true) : isParameter d procedure (.ofWord w) = false := by
  simp [isParameter, Token.ofWord, h]

theorem isReserved_of_of? {w : String} {k : Keyword} (h : Keyword.of? w = some k) :
    isReserved w = true := by
  simp [isReserved, h]

/-- In the body of a procedure no statement starts like a parameter of that procedure. -/
theorem Stmt.Derived.not_isParameter {d : Declarations} {name : String} {n : Nat} {t : Token}
    {ts : List Token} {s : Stmt} (h : Stmt.Derived ((name, n) :: d) (t :: ts) s) :
    isParameter d name t = false := by
  cases h with
  | command hw => exact not_isParameter_of_reserved (isReserved_of_of? hw)
  | assignment hw => exact not_isParameter_of_reserved (isReserved_of_of? hw)
  | ifThen hw => exact not_isParameter_of_reserved (isReserved_of_of? hw)
  | whileDo hw => exact not_isParameter_of_reserved (isReserved_of_of? hw)
  | @call callee _ es hname hcount =>
    by_cases hself : callee = name
    · simp [isParameter, Token.ofWord, hself]
    · have hd : d.arity? callee = some es.length := by
        simpa [Declarations.arity?, List.lookup_cons, beq_false_of_ne hself] using hcount
      simp [isParameter, Token.ofWord, hd]

/-- Parameters are read up to the first token that is none. -/
theorem readParameters_complete {d : Declarations} {procedure : String} {t : Token}
    (ht : isParameter d procedure t = false) (rest : List Token) :
    ∀ (ps : List Token) (taken : List String), (∀ p ∈ ps, d.AllowsParameter procedure p) →
      (taken.reverse ++ ps.map Token.text).Nodup →
      readParameters d procedure taken (ps ++ t :: rest) =
        .ok (taken.reverse ++ ps.map Token.text, t :: rest) := by
  intro ps
  induction ps with
  | nil =>
    intro taken _ _
    rw [List.nil_append, readParameters]
    simp [ht]
  | cons p ps ih =>
    intro taken hall hnodup
    have hp : isParameter d procedure p = true := isParameter_iff.mpr (hall p List.mem_cons_self)
    have hshift : taken.reverse ++ (p :: ps).map Token.text =
        (p.text :: taken).reverse ++ ps.map Token.text := by simp
    have hnew : p.text ∉ taken := by
      intro hmem
      rw [List.nodup_append] at hnodup
      exact hnodup.2.2 p.text (List.mem_reverse.mpr hmem) p.text (by simp) rfl
    rw [hshift] at hnodup ⊢
    rw [List.cons_append, readParameters, if_pos hp, if_neg (by simpa using hnew)]
    exact ih _ (fun q hq => hall q (List.mem_cons_of_mem _ hq)) hnodup

theorem findIdx?_isEnd {bs : List Token} (hb : ∀ t ∈ bs, isEnd t = false) {stop : String}
    (hstop : Keyword.of? stop = some .procedureEnd) (rest : List Token) :
    (bs ++ .ofWord stop :: rest).findIdx? isEnd = some bs.length := by
  have hend : isEnd (.ofWord stop) = true := by simp [isEnd, Token.ofWord, hstop]
  rw [List.findIdx?_append, List.findIdx?_eq_none_iff.mpr hb, List.findIdx?_cons, if_pos hend]
  simp

theorem readHeading_complete {d : Declarations} {name stop : String} {ps bs : List Token}
    {body : List Stmt} (hname : isReserved name = false)
    (hall : ∀ t ∈ ps, d.AllowsParameter name t) (hnodup : (ps.map Token.text).Nodup)
    (hbody : Stmt.AllDerived ((name, ps.length) :: d) bs body)
    (hstop : Keyword.of? stop = some .procedureEnd) (rest : List Token) :
    readHeading d (.ofWord name :: (ps ++ (bs ++ .ofWord stop :: rest))) =
      .ok ⟨name, ps.map Token.text, bs.length, bs ++ .ofWord stop :: rest⟩ := by
  have hps : readParameters d name [] (ps ++ (bs ++ .ofWord stop :: rest)) =
      .ok (ps.map Token.text, bs ++ .ofWord stop :: rest) := by
    cases hbody with
    | nil =>
      exact readParameters_complete (not_isParameter_of_reserved (isReserved_of_of? hstop)) rest
        ps [] hall hnodup
    | @cons ts us _ _ hs _ =>
      obtain ⟨t, ts, rfl⟩ := List.exists_cons_of_ne_nil hs.ne_nil
      exact readParameters_complete hs.not_isParameter (ts ++ us ++ .ofWord stop :: rest) ps []
        hall hnodup
  rw [readHeading, if_pos (Token.kind_ofWord name), Token.text_ofWord,
    if_neg (by simp [hname]), hps]
  simp only [findIdx?_isEnd hbody.not_isEnd hstop]

theorem readTop_of_derived {d : Declarations} {ts : List Token} {s : Stmt}
    (h : Stmt.Derived d ts s) (limit : Nat) (rest : List Token) :
    Stmt.readTop limit d (ts ++ rest) = (Stmt.read d limit (ts ++ rest), d) := by
  cases h with
  | call hname => simp [Stmt.readTop, Token.ofWord, of?_eq_none_of_unreserved hname]
  | _ hw => simp [Stmt.readTop, Token.ofWord, hw]

theorem readTop_of_definition {limit : Nat} {d : Declarations} {start stop name : String}
    {ps bs : List Token} {body : List Stmt} (hstart : Keyword.of? start = some .procedureStart)
    (hname : isReserved name = false) (hall : ∀ t ∈ ps, d.AllowsParameter name t)
    (hnodup : (ps.map Token.text).Nodup)
    (hbody : Stmt.AllDerived ((name, ps.length) :: d) bs body)
    (hstop : Keyword.of? stop = some .procedureEnd) (hn : Stmt.allNesting body ≤ limit)
    (rest : List Token) :
    Stmt.readTop limit d
        (.ofWord start :: .ofWord name :: (ps ++ (bs ++ .ofWord stop :: rest))) =
      (.ok (.define name (ps.map Token.text) body, rest), (name, ps.length) :: d) := by
  rw [Stmt.readTop, if_pos ⟨rfl, hstart⟩, readDefinition,
    readHeading_complete hname hall hnodup hbody hstop rest]
  simp only [List.length_map, sequence_complete (Stmt.read_complete _ limit) _ hbody hn,
    List.drop_one, List.tail_cons]

theorem declarations_cons_of_derived {d d₁ : Declarations} {ts : List Token} {s : Stmt}
    (h : Stmt.Derived d ts s) (ss : List Stmt) :
    Script.declarations d₁ (s :: ss) = Script.declarations d₁ ss := by
  cases h <;> rfl

theorem topSequence_complete {limit : Nat} {d : Declarations} {used : List Token} {ss : Script}
    (h : Script.Derived d used ss) (hn : Stmt.allNesting ss ≤ limit) (rest : List Token) :
    topSequence limit d used.length (used ++ rest) =
      (.ok (ss, rest), Script.declarations d ss) := by
  induction h with
  | nil => simp [topSequence, Script.declarations]
  | @statement d ts us s ss hs _ ih =>
    simp only [Stmt.allNesting] at hn
    obtain ⟨t, ts, rfl⟩ := List.exists_cons_of_ne_nil hs.ne_nil
    have hread := readTop_of_derived hs limit (us ++ rest)
    rw [Stmt.read_complete d limit _ _ _ hs (by omega), List.cons_append] at hread
    have hmore : (ts ++ (us ++ rest)).length - (us ++ rest).length = ts.length := by simp
    have hleft : (ts ++ us).length - ts.length = us.length := by simp
    rw [List.cons_append, List.length_cons, List.cons_append, topSequence, List.append_assoc]
    simp only [hread, hmore, hleft, ih (by omega), declarations_cons_of_derived hs]
    rw [if_pos (by simp)]
  | @definition d start stop name ps bs us body ss hstart hname hall hnodup hbody hstop _ ih =>
    simp only [Stmt.allNesting, Stmt.nesting] at hn
    obtain ⟨header, hheader⟩ : ∃ header : List Token,
        header = .ofWord name :: (ps ++ (bs ++ [.ofWord stop])) := ⟨_, rfl⟩
    have hused : (.ofWord name :: (ps ++ (bs ++ .ofWord stop :: us)) : List Token) =
        header ++ us := by simp [hheader]
    have hread := readTop_of_definition hstart hname hall hnodup hbody hstop
      (by omega : _ ≤ limit) (us ++ rest)
    rw [show (.ofWord name :: (ps ++ (bs ++ .ofWord stop :: (us ++ rest))) : List Token) =
      header ++ (us ++ rest) by simp [hheader]] at hread
    have hmore : (header ++ (us ++ rest)).length - (us ++ rest).length = header.length := by simp
    have hleft : (header ++ us).length - header.length = us.length := by simp
    rw [hused, List.length_cons, List.cons_append, topSequence, List.append_assoc]
    simp only [hread, hmore, hleft, ih (by omega), Script.declarations, List.length_map]
    rw [if_pos (by simp)]

/-- A script is parsed from the tokens that it is derived from. -/
theorem parse_of_derived {limit : Nat} {tokens : List Token} {script : Script}
    (h : Script.Derived [] tokens script) (hn : Stmt.allNesting script ≤ limit) :
    parse limit tokens = (.ok script, Script.declarations [] script) := by
  have hs := topSequence_complete h hn []
  rw [List.append_nil] at hs
  rw [parse, hs]

/-- Every list of tokens derives at most one script. -/
theorem Script.Derived.unique {tokens : List Token} {a b : Script}
    (ha : Script.Derived [] tokens a) (hb : Script.Derived [] tokens b) : a = b := by
  have hpa := parse_of_derived ha (Nat.le_max_left _ (Stmt.allNesting b))
  have hpb := parse_of_derived hb (Nat.le_max_right (Stmt.allNesting a) _)
  rw [hpa] at hpb
  cases hpb
  rfl

/-- The parser accepts exactly the grammar: a list of tokens is parsed to a tree just when the tree
is derived from the whole of it, a limit refuses only what is nested deeper, and there is one tree
at most. -/
theorem parse_iff_derived (tokens : List Token) (script : Script) :
    ((∃ limit, (parse limit tokens).1 = .ok script) ↔ Script.Derived [] tokens script) ∧
    (∀ limit, (parse limit tokens).1 = .ok script ↔
      Script.Derived [] tokens script ∧ Stmt.allNesting script ≤ limit) ∧
    ∀ other, Script.Derived [] tokens script → Script.Derived [] tokens other →
      other = script := by
  refine ⟨⟨?_, ?_⟩, ?_, ?_⟩
  · rintro ⟨limit, h⟩
    exact (derived_of_parse h).1
  · intro h
    exact ⟨Stmt.allNesting script, by rw [parse_of_derived h (Nat.le_refl _)]⟩
  · intro limit
    refine ⟨derived_of_parse, ?_⟩
    rintro ⟨h, hn⟩
    rw [parse_of_derived h hn]
  · intro other h ho
    exact ho.unique h

end TurtleGraphics
