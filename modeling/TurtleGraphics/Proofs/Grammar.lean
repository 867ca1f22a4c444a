import TurtleGraphics.Proofs.Brackets

/-!
# TurtleGraphics.Proofs.Grammar

The grammar of scripts as a relation between lists of tokens and trees. It says what a script is
and not how one is read: there is no look-ahead, and no search for the end of a block or a body.

* `Expr.Derived`   : the tokens of an expression.
* `Stmt.Derived`   : the tokens of a statement where some procedures have been declared.
* `Script.Derived` : the tokens of a whole script; each definition is in force from its own body on.
* `Script.declarations` : the declarations that a script leaves behind.
* `Script.declarations_eq_append` : its own, and behind them those that were there before.
* `Expr.nesting`, `Stmt.nesting` : how deep a tree is nested.

The names of words are those of `Keyword.of?`. A bracket is known by its kind alone.
-/

namespace TurtleGraphics

/-! ## Expressions -/

/-- What a quoted word denotes where an expression is expected. -/
inductive Literal : String → Expr → Prop where
  | yes : Literal "TRUE" (.boolean true)
  | no : Literal "FALSE" (.boolean false)
  | number {text : String} {x : Float} : text ≠ "TRUE" → text ≠ "FALSE" →
      Number.read text = some x → Number.isFinite x = true → Literal text (.number x)

namespace Expr

/-- The tokens of an expression, its operator first. -/
inductive Derived : List Token → Expr → Prop where
  | literal {text : String} {e : Expr} : Literal text e → Derived [.ofQuoted text] e
  | variable {name : String} : Derived [⟨.variable, name⟩] (.variable name)
  | query {w : String} {q : Query} : Keyword.of? w = some (.query q) →
      Derived [.ofWord w] (.query q)
  | negation {w : String} {ts : List Token} {e : Expr} : Keyword.of? w = some .negation →
      Derived ts e → Derived (.ofWord w :: ts) (.negation e)
  | numeric {w : String} {op : NumericOp} {ls rs : List Token} {l r : Expr} :
      Keyword.of? w = some (.numeric op) → Derived ls l → Derived rs r →
      Derived (.ofWord w :: (ls ++ rs)) (.numeric op l r)
  | logic {w : String} {op : LogicOp} {ls rs : List Token} {l r : Expr} :
      Keyword.of? w = some (.logic op) → Derived ls l → Derived rs r →
      Derived (.ofWord w :: (ls ++ rs)) (.logic op l r)

/-- The tokens of expressions that follow one another. -/
inductive AllDerived : List Token → List Expr → Prop where
  | nil : AllDerived [] []
  | cons {ts us : List Token} {e : Expr} {es : List Expr} :
      Derived ts e → AllDerived us es → AllDerived (ts ++ us) (e :: es)

/-- How deep an expression is nested. -/
def nesting : Expr → Nat
  | .numeric _ l r => max l.nesting r.nesting + 1
  | .logic _ l r => max l.nesting r.nesting + 1
  | .negation e => e.nesting + 1
  | _ => 1

/-- How deep the deepest of several expressions is nested. -/
def allNesting : List Expr → Nat
  | [] => 0
  | e :: rest => max e.nesting (allNesting rest)

end Expr

/-! ## Statements -/

mutual

/-- The tokens of a statement in a block or a body. -/
inductive Stmt.Derived (d : Declarations) : List Token → Stmt → Prop where
  | command {w : String} {v : Verb} {ts : List Token} {es : List Expr} :
      Keyword.of? w = some (.command v) → v.takesName = false → Expr.AllDerived ts es →
      es.length = v.arity → Stmt.Derived d (.ofWord w :: ts) (.command v es none)
  | assignment {w : String} {v : Verb} {name : String} {ts : List Token} {e : Expr} :
      Keyword.of? w = some (.command v) → v.takesName = true → Expr.Derived ts e →
      Stmt.Derived d (.ofWord w :: .ofQuoted name :: ts) (.command v [e] (some name))
  | ifThen {w : String} {opener closer : Token} {cs bs : List Token} {c : Expr}
      {block : List Stmt} :
      Keyword.of? w = some .ifThen → Expr.Derived cs c → opener.kind = .openBlock →
      Stmt.AllDerived d bs block → closer.kind = .closeBlock →
      Stmt.Derived d (.ofWord w :: (cs ++ opener :: (bs ++ [closer]))) (.ifThen c block)
  | whileDo {w : String} {opener closer : Token} {cs bs : List Token} {c : Expr}
      {block : List Stmt} :
      Keyword.of? w = some .whileDo → Expr.Derived cs c → opener.kind = .openBlock →
      Stmt.AllDerived d bs block → closer.kind = .closeBlock →
      Stmt.Derived d (.ofWord w :: (cs ++ opener :: (bs ++ [closer]))) (.whileDo c block)
  | call {name : String} {ts : List Token} {es : List Expr} : isReserved name = false →
      d.arity? name = some es.length → Expr.AllDerived ts es →
      Stmt.Derived d (.ofWord name :: ts) (.call name es)

/-- The tokens of statements that follow one another. -/
inductive Stmt.AllDerived (d : Declarations) : List Token → List Stmt → Prop where
  | nil : Stmt.AllDerived d [] []
  | cons {ts us : List Token} {s : Stmt} {ss : List Stmt} :
      Stmt.Derived d ts s → Stmt.AllDerived d us ss → Stmt.AllDerived d (ts ++ us) (s :: ss)

end

mutual

/-- How deep a statement is nested. -/
def Stmt.nesting : Stmt → Nat
  | .command _ operands _ => Expr.allNesting operands + 1
  | .ifThen c block => max c.nesting (Stmt.allNesting block) + 1
  | .whileDo c block => max c.nesting (Stmt.allNesting block) + 1
  | .define _ _ body => Stmt.allNesting body
  | .call _ arguments => Expr.allNesting arguments + 1
  | .foreign _ => 1

/-- How deep the deepest of several statements is nested. -/
def Stmt.allNesting : List Stmt → Nat
  | [] => 0
  | s :: rest => max s.nesting (Stmt.allNesting rest)

end

theorem Stmt.allNesting_append (a b : List Stmt) :
    Stmt.allNesting (a ++ b) = max (Stmt.allNesting a) (Stmt.allNesting b) := by
  induction a with
  | nil => simp [Stmt.allNesting]
  | cons s a ih => simp [Stmt.allNesting, ih, Nat.max_assoc]

/-! ## Scripts -/

/-- Whether a token may be a parameter of a procedure: it is quoted, or a word that means nothing
else. -/
def Declarations.AllowsParameter (d : Declarations) (procedure : String) (t : Token) : Prop :=
  t.kind = .quoted ∨
    t.kind = .word ∧ isReserved t.text = false ∧ d.arity? t.text = none ∧ t.text ≠ procedure

/-- The tokens of a script, or of what is left of one behind some declarations. -/
inductive Script.Derived : Declarations → List Token → Script → Prop where
  | nil {d : Declarations} : Script.Derived d [] []
  | statement {d : Declarations} {ts us : List Token} {s : Stmt} {ss : List Stmt} :
      Stmt.Derived d ts s → Script.Derived d us ss → Script.Derived d (ts ++ us) (s :: ss)
  | definition {d : Declarations} {start stop name : String} {ps bs us : List Token}
      {body ss : List Stmt} :
      Keyword.of? start = some .procedureStart → isReserved name = false →
      (∀ t ∈ ps, d.AllowsParameter name t) → (ps.map Token.text).Nodup →
      Stmt.AllDerived ((name, ps.length) :: d) bs body →
      Keyword.of? stop = some .procedureEnd → Script.Derived ((name, ps.length) :: d) us ss →
      Script.Derived d (.ofWord start :: .ofWord name :: (ps ++ (bs ++ .ofWord stop :: us)))
        (.define name (ps.map Token.text) body :: ss)

/-- The parameters of a definition may all be quoted. -/
theorem Script.Derived.definition_quoted {d : Declarations} {start stop name : String}
    {parameters : List String} {bs us : List Token} {body ss : List Stmt}
    (hstart : Keyword.of? start = some .procedureStart) (hname : isReserved name = false)
    (hnodup : parameters.Nodup)
    (hbody : Stmt.AllDerived ((name, parameters.length) :: d) bs body)
    (hstop : Keyword.of? stop = some .procedureEnd)
    (hrest : Script.Derived ((name, parameters.length) :: d) us ss) :
    Script.Derived d
      (.ofWord start :: .ofWord name :: (parameters.map .ofQuoted ++ (bs ++ .ofWord stop :: us)))
      (.define name parameters body :: ss) := by
  have hallowed : ∀ t ∈ parameters.map Token.ofQuoted, d.AllowsParameter name t := by
    intro t ht
    obtain ⟨_, -, rfl⟩ := List.mem_map.mp ht
    exact .inl rfl
  have htext : (parameters.map Token.ofQuoted).map Token.text = parameters := by
    simp [Token.ofQuoted, Function.comp_def]
  have hlength : (parameters.map Token.ofQuoted).length = parameters.length := List.length_map _
  have h := Script.Derived.definition hstart hname hallowed (by rwa [htext]) (by rwa [hlength])
    hstop (by rwa [hlength])
  rwa [htext] at h

/-- The declarations in force behind a script that stands behind others. -/
def Script.declarations (d : Declarations) : Script → Declarations
  | [] => d
  | .define name parameters _ :: rest => Script.declarations ((name, parameters.length) :: d) rest
  | _ :: rest => Script.declarations d rest

/-- The names of the procedures that a script defines, in the order of the definitions. -/
def Script.defined : Script → List String
  | [] => []
  | .define name _ _ :: rest => name :: Script.defined rest
  | _ :: rest => Script.defined rest

namespace Script

theorem declarations_append (d : Declarations) (a b : Script) :
    declarations d (a ++ b) = declarations (declarations d a) b := by
  induction a generalizing d with
  | nil => rfl
  | cons s a ih => cases s <;> exact ih _

/-- A script leaves behind its own declarations, and below them those that were there before. -/
theorem declarations_eq_append (d : Declarations) (script : Script) :
    declarations d script = declarations [] script ++ d := by
  induction script generalizing d with
  | nil => rfl
  | cons s script ih =>
    cases s with
    | define name parameters body =>
      simp only [declarations]
      rw [ih, ih [(name, parameters.length)], List.append_assoc]
      rfl
    | _ => exact ih d

theorem map_fst_declarations (script : Script) :
    (declarations [] script).map Prod.fst = (defined script).reverse := by
  induction script with
  | nil => rfl
  | cons s script ih =>
    cases s with
    | define name parameters body =>
      rw [declarations, declarations_eq_append, List.map_append, ih, defined, List.reverse_cons]
      rfl
    | _ => exact ih

end Script

theorem Script.defined_cons_of_derived {d : Declarations} {ts : List Token} {s : Stmt}
    (h : Stmt.Derived d ts s) (ss : List Stmt) :
    Script.defined (s :: ss) = Script.defined ss := by
  cases h <;> rfl

/-! ## What the tokens of a tree look like -/

@[simp] theorem Token.kind_ofWord (w : String) : (Token.ofWord w).kind = .word := rfl

@[simp] theorem Token.text_ofWord (w : String) : (Token.ofWord w).text = w := rfl

@[simp] theorem Token.isBracket_ofWord (w : String) : (Token.ofWord w).isBracket = false := rfl

@[simp] theorem Token.isBracket_ofQuoted (s : String) : (Token.ofQuoted s).isBracket = false := rfl

@[simp] theorem isEnd_ofQuoted (s : String) : isEnd (.ofQuoted s) = false := rfl

theorem isEnd_ofWord {w : String} (h : Keyword.of? w ≠ some .procedureEnd) :
    isEnd (.ofWord w) = false := by
  simp [isEnd, Token.ofWord, h]

theorem Verb.arity_of_takesName {v : Verb} (h : v.takesName = true) : v.arity = 1 := by
  cases v <;> first | rfl | cases h

theorem of?_eq_none_of_unreserved {w : String} (h : isReserved w = false) :
    Keyword.of? w = none := by
  simpa [isReserved] using h

/-- A token that neither opens, closes nor ends anything. -/
def Token.IsInner (t : Token) : Prop := t.isBracket = false ∧ isEnd t = false

theorem Token.IsInner.ofQuoted (s : String) : (Token.ofQuoted s).IsInner := ⟨rfl, rfl⟩

theorem Token.IsInner.variable (name : String) : (⟨.variable, name⟩ : Token).IsInner := ⟨rfl, rfl⟩

theorem Token.IsInner.ofWord {w : String} (h : Keyword.of? w ≠ some .procedureEnd) :
    (Token.ofWord w).IsInner := ⟨rfl, isEnd_ofWord h⟩

namespace Expr

theorem Derived.isInner {ts : List Token} {e : Expr} (h : Derived ts e) :
    ∀ t ∈ ts, t.IsInner := by
  induction h with
  | literal _ => simpa using Token.IsInner.ofQuoted _
  | «variable» => simpa using Token.IsInner.variable _
  | query hw => simpa using Token.IsInner.ofWord (by simp [hw])
  | negation hw _ ih =>
    intro t ht
    rcases List.mem_cons.mp ht with rfl | ht
    · exact .ofWord (by simp [hw])
    · exact ih t ht
  | numeric hw _ _ ihl ihr =>
    intro t ht
    rcases List.mem_cons.mp ht with rfl | ht
    · exact .ofWord (by simp [hw])
    · exact (List.mem_append.mp ht).elim (ihl t) (ihr t)
  | logic hw _ _ ihl ihr =>
    intro t ht
    rcases List.mem_cons.mp ht with rfl | ht
    · exact .ofWord (by simp [hw])
    · exact (List.mem_append.mp ht).elim (ihl t) (ihr t)

theorem AllDerived.isInner {ts : List Token} {es : List Expr} (h : AllDerived ts es) :
    ∀ t ∈ ts, t.IsInner := by
  induction h with
  | nil => simp
  | cons he _ ih =>
    intro t ht
    exact (List.mem_append.mp ht).elim (he.isInner t) (ih t)

theorem Derived.ne_nil {ts : List Token} {e : Expr} (h : Derived ts e) : ts ≠ [] := by
  cases h <;> simp

end Expr

theorem Stmt.Derived.ne_nil {d : Declarations} {ts : List Token} {s : Stmt}
    (h : Stmt.Derived d ts s) : ts ≠ [] := by
  cases h <;> simp

end TurtleGraphics
