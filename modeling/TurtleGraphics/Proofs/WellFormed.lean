import TurtleGraphics.Proofs.SourceRoundTrip

/-!
# TurtleGraphics.Proofs.WellFormed

Trees that were not parsed, and what they have to be like to be printed and read back.

* `Expr.WellFormed`, `Stmt.WellFormed`, `Script.WellFormed` : every word is one of the language,
  every name can be spelled, and every call counts its arguments by the definition before it.
* `Script.WellFormed.derived` : such a tree is derived from tokens that can be spelled.
* `parseScript_of_wellFormed` : so its text parses to the very same tree.
* `wellFormed_iff_parses` : no other trees come out of a parse.

Nothing is asked of a name but that it is one. It may look like a comment, a number or a word of
the language, since it is printed behind a sigil. The names of procedures are not, and for them
more is asked.
-/

namespace TurtleGraphics

open TurtleGraphics.Text

/-! ## Words and names -/

instance : DecidablePred IsName := fun cs =>
  decidable_of_iff (cs ≠ [] ∧ cs.all isNameChar = true) (by rw [IsName, List.all_eq_true])

instance : DecidablePred IsWord := fun cs =>
  decidable_of_iff
    (IsName cs ∧ cs.head?.all (fun c => !isSigil c) = true ∧ ['/', '/'].isPrefixOf cs = false)
    (by simp [IsWord, Option.all_eq_true, List.isPrefixOf_iff_prefix, ← Bool.not_eq_true])

/-- The vocabulary has a word for it. -/
def Keyword.Listed (k : Keyword) : Prop := (k.word, k) ∈ vocabulary

instance : DecidablePred Keyword.Listed := fun k =>
  inferInstanceAs (Decidable ((k.word, k) ∈ vocabulary))

theorem Keyword.Listed.of?_word {k : Keyword} (h : k.Listed) : Keyword.of? k.word = some k := by
  have hall : ∀ e ∈ vocabulary, Keyword.of? e.1 = some e.2 := by decide
  exact hall _ h

theorem Keyword.Listed.spelled {k : Keyword} (h : k.Listed) : (Token.ofWord k.word).Spelled := by
  have hall : ∀ e ∈ vocabulary, IsWord e.1.toList := by decide
  exact .word (hall _ h)

/-- The name can be given to a procedure. -/
structure IsProcedureName (name : String) : Prop where
  isWord : IsWord name.toList
  unreserved : isReserved name = false

instance : DecidablePred IsProcedureName := fun name =>
  decidable_of_iff (IsWord name.toList ∧ isReserved name = false)
    ⟨fun h => ⟨h.1, h.2⟩, fun h => ⟨h.1, h.2⟩⟩

/-! ## Trees -/

/-- The expression can be written. -/
def Expr.WellFormed : Expr → Prop
  | .number x => Number.isFinite x = true
  | .boolean _ => True
  | .variable name => IsName name.toList
  | .query q => (Keyword.query q).Listed
  | .numeric op l r => (Keyword.numeric op).Listed ∧ l.WellFormed ∧ r.WellFormed
  | .logic op l r => (Keyword.logic op).Listed ∧ l.WellFormed ∧ r.WellFormed
  | .negation e => e.WellFormed
  | .foreign _ => False

/-- The target of a command: the name of a variable if it takes one, and none otherwise. -/
def Verb.Targets (v : Verb) : Option String → Prop
  | some name => v.takesName = true ∧ IsName name.toList
  | none => v.takesName = false

mutual

/-- The statement can be written in a block or a body where some procedures have been declared. -/
def Stmt.WellFormed (d : Declarations) : Stmt → Prop
  | .command v operands target =>
    (Keyword.command v).Listed ∧ operands.length = v.arity ∧ v.Targets target ∧
      ∀ e ∈ operands, e.WellFormed
  | .ifThen c block => c.WellFormed ∧ Stmt.AllWellFormed d block
  | .whileDo c block => c.WellFormed ∧ Stmt.AllWellFormed d block
  | .define _ _ _ => False
  | .call name arguments =>
    d.arity? name = some arguments.length ∧ ∀ e ∈ arguments, e.WellFormed
  | .foreign _ => False

/-- The statements can be written one after the other. -/
def Stmt.AllWellFormed (d : Declarations) : List Stmt → Prop
  | [] => True
  | s :: rest => s.WellFormed d ∧ Stmt.AllWellFormed d rest

end

/-- The statement can be written at the top level, where procedures may be defined. A definition is
in force in its own body. -/
def Stmt.TopWellFormed (d : Declarations) : Stmt → Prop
  | .define name parameters body =>
    IsProcedureName name ∧ (∀ p ∈ parameters, IsName p.toList) ∧ parameters.Nodup ∧
      Stmt.AllWellFormed ((name, parameters.length) :: d) body
  | s => s.WellFormed d

/-- The script can be written behind some declarations, to which its definitions are added. -/
def Script.WellFormed : Declarations → Script → Prop
  | _, [] => True
  | d, s :: rest => s.TopWellFormed d ∧ Script.WellFormed (Script.declarations d [s]) rest

/-- Whether an expression can be written. -/
def Expr.decideWellFormed : (e : Expr) → Decidable e.WellFormed
  | .number x => inferInstanceAs (Decidable (Number.isFinite x = true))
  | .boolean _ => inferInstanceAs (Decidable True)
  | .variable name => inferInstanceAs (Decidable (IsName name.toList))
  | .query q => inferInstanceAs (Decidable (Keyword.query q).Listed)
  | .numeric op l r =>
    have := l.decideWellFormed
    have := r.decideWellFormed
    inferInstanceAs (Decidable ((Keyword.numeric op).Listed ∧ l.WellFormed ∧ r.WellFormed))
  | .logic op l r =>
    have := l.decideWellFormed
    have := r.decideWellFormed
    inferInstanceAs (Decidable ((Keyword.logic op).Listed ∧ l.WellFormed ∧ r.WellFormed))
  | .negation e => e.decideWellFormed
  | .foreign _ => inferInstanceAs (Decidable False)

instance : DecidablePred Expr.WellFormed := Expr.decideWellFormed

instance (v : Verb) : DecidablePred v.Targets
  | some name => inferInstanceAs (Decidable (v.takesName = true ∧ IsName name.toList))
  | none => inferInstanceAs (Decidable (v.takesName = false))

mutual

/-- Whether a statement can be written where some procedures have been declared. -/
def Stmt.decideWellFormed (d : Declarations) : (s : Stmt) → Decidable (s.WellFormed d)
  | .command v operands target =>
    inferInstanceAs (Decidable ((Keyword.command v).Listed ∧ operands.length = v.arity ∧
      v.Targets target ∧ ∀ e ∈ operands, e.WellFormed))
  | .ifThen c block =>
    have := Stmt.decideAllWellFormed d block
    inferInstanceAs (Decidable (c.WellFormed ∧ Stmt.AllWellFormed d block))
  | .whileDo c block =>
    have := Stmt.decideAllWellFormed d block
    inferInstanceAs (Decidable (c.WellFormed ∧ Stmt.AllWellFormed d block))
  | .define _ _ _ => inferInstanceAs (Decidable False)
  | .call name arguments =>
    inferInstanceAs (Decidable (d.arity? name = some arguments.length ∧
      ∀ e ∈ arguments, e.WellFormed))
  | .foreign _ => inferInstanceAs (Decidable False)

/-- Whether statements can be written one after the other. -/
def Stmt.decideAllWellFormed (d : Declarations) : (ss : List Stmt) →
    Decidable (Stmt.AllWellFormed d ss)
  | [] => inferInstanceAs (Decidable True)
  | s :: rest =>
    have := s.decideWellFormed d
    have := Stmt.decideAllWellFormed d rest
    inferInstanceAs (Decidable (s.WellFormed d ∧ Stmt.AllWellFormed d rest))

end

instance (d : Declarations) : DecidablePred (Stmt.WellFormed d) := Stmt.decideWellFormed d

instance (d : Declarations) : DecidablePred (Stmt.AllWellFormed d) := Stmt.decideAllWellFormed d

instance (d : Declarations) : DecidablePred (Stmt.TopWellFormed d)
  | .define name parameters body =>
    inferInstanceAs (Decidable (IsProcedureName name ∧ (∀ p ∈ parameters, IsName p.toList) ∧
      parameters.Nodup ∧ Stmt.AllWellFormed ((name, parameters.length) :: d) body))
  | .command v operands target => (Stmt.command v operands target).decideWellFormed d
  | .ifThen c block => (Stmt.ifThen c block).decideWellFormed d
  | .whileDo c block => (Stmt.whileDo c block).decideWellFormed d
  | .call name arguments => (Stmt.call name arguments).decideWellFormed d
  | .foreign shape => (Stmt.foreign shape).decideWellFormed d

/-- Whether a script can be written behind some declarations. -/
def Script.decideWellFormed : (d : Declarations) → (script : Script) →
    Decidable (Script.WellFormed d script)
  | _, [] => inferInstanceAs (Decidable True)
  | d, s :: rest =>
    have := Script.decideWellFormed (Script.declarations d [s]) rest
    inferInstanceAs (Decidable (s.TopWellFormed d ∧
      Script.WellFormed (Script.declarations d [s]) rest))

instance (d : Declarations) : DecidablePred (Script.WellFormed d) := Script.decideWellFormed d

/-! ## The tokens of a well-formed tree -/

namespace Expr

theorem WellFormed.derived {e : Expr} (h : e.WellFormed) :
    ∃ ts, AllSpelled ts ∧ Derived ts e := by
  induction e with
  | number x =>
    exact ⟨_, by simpa using ⟨.quoted (isName_text h), .nil⟩, .literal (literal_text h)⟩
  | boolean b =>
    cases b with
    | true => exact ⟨[.ofQuoted "TRUE"], by simpa using ⟨.quoted (by decide), .nil⟩, .literal .yes⟩
    | false => exact ⟨[.ofQuoted "FALSE"], by simpa using ⟨.quoted (by decide), .nil⟩, .literal .no⟩
  | «variable» name => exact ⟨_, by simpa using ⟨.variable h, .nil⟩, .variable⟩
  | query q => exact ⟨_, by simpa using ⟨h.spelled, .nil⟩, .query h.of?_word⟩
  | numeric op l r ihl ihr =>
    obtain ⟨hop, hl, hr⟩ := h
    obtain ⟨ls, hls, hl⟩ := ihl hl
    obtain ⟨rs, hrs, hr⟩ := ihr hr
    exact ⟨_, by simpa using ⟨hop.spelled, hls, hrs⟩, .numeric hop.of?_word hl hr⟩
  | logic op l r ihl ihr =>
    obtain ⟨hop, hl, hr⟩ := h
    obtain ⟨ls, hls, hl⟩ := ihl hl
    obtain ⟨rs, hrs, hr⟩ := ihr hr
    exact ⟨_, by simpa using ⟨hop.spelled, hls, hrs⟩, .logic hop.of?_word hl hr⟩
  | negation e ih =>
    obtain ⟨ts, hts, he⟩ := ih h
    have hnot : Keyword.Listed .negation := by decide
    exact ⟨_, by simpa using ⟨hnot.spelled, hts⟩, .negation hnot.of?_word he⟩
  | foreign s => cases h

theorem allDerived_of_wellFormed {es : List Expr} (h : ∀ e ∈ es, e.WellFormed) :
    ∃ ts, AllSpelled ts ∧ AllDerived ts es := by
  induction es with
  | nil => exact ⟨[], .nil, .nil⟩
  | cons e es ih =>
    obtain ⟨ts, hts, he⟩ := (h e List.mem_cons_self).derived
    obtain ⟨us, hus, hes⟩ := ih fun e he => h e (List.mem_cons_of_mem _ he)
    exact ⟨ts ++ us, allSpelled_append.mpr ⟨hts, hus⟩, .cons he hes⟩

end Expr

/-- Only names that can be given to procedures have been declared. -/
def Declarations.WellNamed (d : Declarations) : Prop :=
  ∀ name n, d.arity? name = some n → IsProcedureName name

theorem Declarations.WellNamed.cons {d : Declarations} (h : d.WellNamed) {name : String}
    (hname : IsProcedureName name) (n : Nat) : Declarations.WellNamed ((name, n) :: d) := by
  intro other m hm
  rw [arity?, List.lookup_cons] at hm
  split at hm
  · rename_i heq
    rwa [beq_iff_eq.mp heq]
  · exact h other m hm

mutual

theorem Stmt.WellFormed.derived {d : Declarations} (hd : d.WellNamed) {s : Stmt}
    (h : s.WellFormed d) : ∃ ts, AllSpelled ts ∧ Stmt.Derived d ts s := by
  cases s with
  | command v operands target =>
    obtain ⟨hv, hlength, htarget, hoperands⟩ := h
    cases target with
    | none =>
      obtain ⟨ts, hts, hes⟩ := Expr.allDerived_of_wellFormed hoperands
      exact ⟨_, by simpa using ⟨hv.spelled, hts⟩, .command hv.of?_word htarget hes hlength⟩
    | some name =>
      obtain ⟨htakes, hname⟩ := htarget
      rw [Verb.arity_of_takesName htakes] at hlength
      obtain ⟨e, rfl⟩ := List.length_eq_one_iff.mp hlength
      obtain ⟨ts, hts, he⟩ := (hoperands e List.mem_cons_self).derived
      exact ⟨_, by simpa using ⟨hv.spelled, .quoted hname, hts⟩,
        .assignment hv.of?_word htakes he⟩
  | ifThen c block =>
    obtain ⟨hc, hblock⟩ := h
    obtain ⟨cs, hcs, hc⟩ := hc.derived
    obtain ⟨bs, hbs, hblock⟩ := Stmt.AllWellFormed.derived hd hblock
    have hif : Keyword.Listed .ifThen := by decide
    exact ⟨_, allSpelled_guarded.mpr ⟨hif.spelled, hcs, .opening, hbs, .closing⟩,
      .ifThen hif.of?_word hc rfl hblock rfl⟩
  | whileDo c block =>
    obtain ⟨hc, hblock⟩ := h
    obtain ⟨cs, hcs, hc⟩ := hc.derived
    obtain ⟨bs, hbs, hblock⟩ := Stmt.AllWellFormed.derived hd hblock
    have hwhile : Keyword.Listed .whileDo := by decide
    exact ⟨_, allSpelled_guarded.mpr ⟨hwhile.spelled, hcs, .opening, hbs, .closing⟩,
      .whileDo hwhile.of?_word hc rfl hblock rfl⟩
  | define name parameters body => cases h
  | call name arguments =>
    obtain ⟨harity, harguments⟩ := h
    obtain ⟨ts, hts, hes⟩ := Expr.allDerived_of_wellFormed harguments
    have hname := hd name _ harity
    exact ⟨_, by simpa using ⟨.word hname.isWord, hts⟩, .call hname.unreserved harity hes⟩
  | foreign shape => cases h

theorem Stmt.AllWellFormed.derived {d : Declarations} (hd : d.WellNamed) {ss : List Stmt}
    (h : Stmt.AllWellFormed d ss) : ∃ ts, AllSpelled ts ∧ Stmt.AllDerived d ts ss := by
  cases ss with
  | nil => exact ⟨[], .nil, .nil⟩
  | cons s ss =>
    obtain ⟨ts, hts, hs⟩ := Stmt.WellFormed.derived hd h.1
    obtain ⟨us, hus, hss⟩ := Stmt.AllWellFormed.derived hd h.2
    exact ⟨ts ++ us, allSpelled_append.mpr ⟨hts, hus⟩, .cons hs hss⟩

end

theorem Script.WellFormed.derived {d : Declarations} (hd : d.WellNamed) {script : Script}
    (h : script.WellFormed d) : ∃ ts, AllSpelled ts ∧ Script.Derived d ts script := by
  induction script generalizing d with
  | nil => exact ⟨[], .nil, .nil⟩
  | cons s rest ih =>
    cases s with
    | define name parameters body =>
      obtain ⟨⟨hname, hparameters, hnodup, hbody⟩, hrest⟩ := h
      have hd₁ := hd.cons hname parameters.length
      obtain ⟨bs, hbs, hbody⟩ := Stmt.AllWellFormed.derived hd₁ hbody
      obtain ⟨us, hus, hrest⟩ := ih hd₁ hrest
      have hto : Keyword.Listed .procedureStart := by decide
      have hend : Keyword.Listed .procedureEnd := by decide
      have hquoted : AllSpelled (parameters.map .ofQuoted) := by
        intro t ht
        obtain ⟨p, hp, rfl⟩ := List.mem_map.mp ht
        exact .quoted (hparameters p hp)
      refine ⟨_, ?_, .definition_quoted hto.of?_word hname.unreserved hnodup hbody hend.of?_word
        hrest⟩
      simp only [allSpelled_cons, allSpelled_append]
      exact ⟨hto.spelled, .word hname.isWord, hquoted, hbs, hend.spelled, hus⟩
    | _ =>
      obtain ⟨ts, hts, hs⟩ := Stmt.WellFormed.derived hd h.1
      obtain ⟨us, hus, hrest⟩ := ih hd h.2
      exact ⟨ts ++ us, allSpelled_append.mpr ⟨hts, hus⟩, .statement hs hrest⟩

/-! ## Trees that were derived -/

theorem Token.Spelled.isWord {w : String} (h : (Token.ofWord w).Spelled) : IsWord w.toList := by
  cases h with
  | word hw => exact hw

theorem Keyword.listed_of_of? {w : String} {k : Keyword} (h : Keyword.of? w = some k) :
    k.Listed := by
  cases Keyword.word_of?_eq h
  exact mem_of_lookup_eq_some h

namespace Expr

theorem Derived.wellFormed {ts : List Token} {e : Expr} (h : Derived ts e) (hs : AllSpelled ts) :
    e.WellFormed := by
  induction h with
  | literal hl =>
    cases hl with
    | yes => trivial
    | no => trivial
    | number _ _ _ hf => exact hf
  | «variable» => exact (allSpelled_cons.mp hs).1.isName rfl
  | query hw => exact Keyword.listed_of_of? hw
  | negation _ _ ih => exact ih (allSpelled_cons.mp hs).2
  | numeric hw _ _ ihl ihr =>
    obtain ⟨hls, hrs⟩ := allSpelled_append.mp (allSpelled_cons.mp hs).2
    exact ⟨Keyword.listed_of_of? hw, ihl hls, ihr hrs⟩
  | logic hw _ _ ihl ihr =>
    obtain ⟨hls, hrs⟩ := allSpelled_append.mp (allSpelled_cons.mp hs).2
    exact ⟨Keyword.listed_of_of? hw, ihl hls, ihr hrs⟩

theorem AllDerived.wellFormed {ts : List Token} {es : List Expr} (h : AllDerived ts es)
    (hs : AllSpelled ts) : ∀ e ∈ es, e.WellFormed := by
  induction h with
  | nil => exact fun _ he => nomatch he
  | cons he _ ih =>
    obtain ⟨hfirst, hrest⟩ := allSpelled_append.mp hs
    exact List.forall_mem_cons.mpr ⟨he.wellFormed hfirst, ih hrest⟩

end Expr

mutual

theorem Stmt.Derived.wellFormed {d : Declarations} {ts : List Token} {s : Stmt} :
    Stmt.Derived d ts s → AllSpelled ts → s.WellFormed d
  | .command hw htakes hes harity, hs =>
    ⟨Keyword.listed_of_of? hw, harity, htakes, hes.wellFormed (allSpelled_cons.mp hs).2⟩
  | .assignment hw htakes he, hs => by
    obtain ⟨hname, hs⟩ := allSpelled_cons.mp (allSpelled_cons.mp hs).2
    exact ⟨Keyword.listed_of_of? hw, (Verb.arity_of_takesName htakes).symm,
      ⟨htakes, hname.isName rfl⟩, by simpa using he.wellFormed hs⟩
  | .ifThen _ hc _ hb _, hs => by
    obtain ⟨-, hcs, -, hbs, -⟩ := allSpelled_guarded.mp hs
    exact ⟨hc.wellFormed hcs, hb.wellFormed hbs⟩
  | .whileDo _ hc _ hb _, hs => by
    obtain ⟨-, hcs, -, hbs, -⟩ := allSpelled_guarded.mp hs
    exact ⟨hc.wellFormed hcs, hb.wellFormed hbs⟩
  | .call _ harity hes, hs => ⟨harity, hes.wellFormed (allSpelled_cons.mp hs).2⟩

theorem Stmt.AllDerived.wellFormed {d : Declarations} {ts : List Token} {ss : List Stmt} :
    Stmt.AllDerived d ts ss → AllSpelled ts → Stmt.AllWellFormed d ss
  | .nil, _ => trivial
  | .cons hs hss, h => by
    obtain ⟨hfirst, hrest⟩ := allSpelled_append.mp h
    exact ⟨hs.wellFormed hfirst, hss.wellFormed hrest⟩

end

theorem Stmt.WellFormed.top {d : Declarations} {s : Stmt} (h : s.WellFormed d) :
    s.TopWellFormed d := by
  cases s with
  | define name parameters body => cases h
  | _ => exact h

theorem Script.Derived.wellFormed {d : Declarations} {ts : List Token} {script : Script}
    (h : Script.Derived d ts script) (hs : AllSpelled ts) : script.WellFormed d := by
  induction h with
  | nil => trivial
  | statement hstmt _ ih =>
    obtain ⟨hfirst, hrest⟩ := allSpelled_append.mp hs
    refine ⟨(hstmt.wellFormed hfirst).top, ?_⟩
    rw [declarations_cons_of_derived hstmt]
    exact ih hrest
  | @definition d start stop name ps bs us body ss _ hname hall hnodup hbody _ _ ih =>
    simp only [allSpelled_cons, allSpelled_append] at hs
    obtain ⟨-, hword, hps, hbs, -, hus⟩ := hs
    have hlength : (ps.map Token.text).length = ps.length := List.length_map _
    refine ⟨⟨⟨hword.isWord, hname⟩, ?_, hnodup, ?_⟩, ?_⟩
    · intro p hp
      obtain ⟨t, ht, rfl⟩ := List.mem_map.mp hp
      exact (hps t ht).isName (hall t ht).isBracket
    · rw [hlength]
      exact hbody.wellFormed hbs
    · rw [Script.declarations, Script.declarations, hlength]
      exact ih hus

/-! ## Texts -/

theorem Declarations.WellNamed.nil : Declarations.WellNamed [] := by
  intro name n h
  cases h

theorem parseScript_of_derived {ts : List Token} {script : Script}
    (hd : Script.Derived [] ts script) (hts : AllSpelled ts) {limit : Nat}
    (hn : Stmt.allNesting script ≤ limit) :
    ∃ printed, script.source = .ok printed ∧ parseScript limit printed = .ok script := by
  obtain ⟨ls, hls, hspelled, hl⟩ := hd.printed hts
  refine ⟨String.join (ls.map fun l => l.text ++ "\n"), by simp only [Script.source, hls], ?_⟩
  exact parseScript_of_spells (Spells.lines hspelled) hl hn

/-- What a parse gives is well-formed, and every well-formed tree can be got from one. -/
theorem wellFormed_iff_parses (script : Script) :
    script.WellFormed [] ↔ ∃ limit text, parseScript limit text = .ok script := by
  constructor
  · intro h
    obtain ⟨ts, hts, hd⟩ := Script.WellFormed.derived .nil h
    obtain ⟨printed, -, hparse⟩ := parseScript_of_derived hd hts (Nat.le_refl _)
    exact ⟨_, printed, hparse⟩
  · rintro ⟨limit, text, h⟩
    obtain ⟨ts, hts, hd, -⟩ := derived_of_parseScript h
    exact hd.wellFormed hts

/-- A well-formed tree is printed, and its text parses to the very same tree. -/
theorem parseScript_of_wellFormed {script : Script} (h : script.WellFormed []) {limit : Nat}
    (hn : Stmt.allNesting script ≤ limit) :
    ∃ printed, script.source = .ok printed ∧ parseScript limit printed = .ok script := by
  obtain ⟨ts, hts, hd⟩ := Script.WellFormed.derived .nil h
  exact parseScript_of_derived hd hts hn

/-- A body that starts with a call right behind the parameters, one of which is named like the end
of the body; a procedure with a comment mark in its name, a variable with quotes around it, and a
procedure that is defined anew with another number of parameters. -/
theorem parseScript_of_wellFormed_odd_tree :
    let script : Script :=
      [.define "go//to" ["END", "//x"]
        [.call "go//to" [.variable "//x", .numeric .div (.number (-0.0)) (.variable "END")]],
       .command .make [.logic .or (.boolean true) (.negation (.query .color))] (some "\"a\""),
       .define "go//to" [] [.whileDo (.number 0.5) [.call "go//to" []]],
       .ifThen (.variable ":") [.call "go//to" []]]
    script.WellFormed [] ∧
      ∃ printed, script.source = .ok printed ∧ parseScript 9 printed = .ok script := by
  intro script
  have h : script.WellFormed [] := by decide +kernel
  exact ⟨h, parseScript_of_wellFormed h (by decide)⟩

end TurtleGraphics
