import TurtleGraphics.Proofs.Names

/-!
# TurtleGraphics.Proofs.Renaming

Another name for a parameter makes no difference.

* `newName`             : the new name of a variable, inside the calls in question or outside.
* `Procedure.Aliasable` : the parameter is the procedure's, and the new name is not mentioned in it.
* `Became`              : a statement and what it becomes where it stands.
* `Likeness`            : machines that have come equally far, each on its own names.
* `lockstep_likeness`      : they do the same.
* `run_rename_parameter`           : so a script does the same with another name for a parameter.

Whether the innermost call is one of those in question is told by a list of flags, one for each
scope on the stack. Only in those calls the names differ, and there the parameter is always bound:
a new name never reaches a global variable, and never the scope of another call.
-/

namespace TurtleGraphics

/-! ## Tables with other names -/

namespace Bindings

variable {κ α : Type} {f : κ → κ}

/-- The same bindings under other names. -/
def mapNames (f : κ → κ) (b : Bindings κ α) : Bindings κ α :=
  ⟨b.entries.map (Prod.map f id)⟩

theorem entry_of_names {b : Bindings κ α} {name : κ} (hf : ∀ n ∈ b.names, f n = f name → n = name) :
    ∀ e ∈ b.entries, f e.1 = f name → e.1 = name :=
  fun e he => hf e.1 (List.mem_map_of_mem he)

variable [DecidableEq κ]

theorem find?_map {name : κ} {es : List (κ × α)} (hf : ∀ e ∈ es, f e.1 = f name → e.1 = name) :
    find? (f name) (es.map (Prod.map f id)) = find? name es := by
  induction es with
  | nil => rfl
  | cons e es ih =>
    obtain ⟨n, a⟩ := e
    have hrest := ih fun e he => hf e (List.mem_cons_of_mem _ he)
    by_cases hn : n = name
    · simp [find?, hn]
    · have hfn : f n ≠ f name := fun h => hn (hf (n, a) List.mem_cons_self h)
      simp [find?, hn, hfn, hrest]

theorem put_map {name : κ} (a : α) {es : List (κ × α)}
    (hf : ∀ e ∈ es, f e.1 = f name → e.1 = name) :
    put (f name) a (es.map (Prod.map f id)) = (put name a es).map (Prod.map f id) := by
  induction es with
  | nil => rfl
  | cons e es ih =>
    obtain ⟨n, b⟩ := e
    have hrest := ih fun e he => hf e (List.mem_cons_of_mem _ he)
    by_cases hn : n = name
    · simp [put, hn]
    · have hfn : f n ≠ f name := fun h => hn (hf (n, b) List.mem_cons_self h)
      simp [put, hn, hfn, hrest]

theorem lookup?_mapNames {b : Bindings κ α} {name : κ}
    (hf : ∀ n ∈ b.names, f n = f name → n = name) :
    (b.mapNames f).lookup? (f name) = b.lookup? name :=
  find?_map (entry_of_names hf)

theorem insert_mapNames {b : Bindings κ α} {name : κ} (a : α)
    (hf : ∀ n ∈ b.names, f n = f name → n = name) :
    (b.mapNames f).insert (f name) a = (b.insert name a).mapNames f :=
  congrArg Bindings.mk (put_map a (entry_of_names hf))

theorem foldl_insert_mapNames {P : κ → Prop} (hf : ∀ m n, P m → P n → f m = f n → m = n)
    (es : List (κ × α)) (hes : ∀ e ∈ es, P e.1) (b : Bindings κ α) (hb : ∀ n ∈ b.names, P n) :
    (es.map (Prod.map f id)).foldl (fun b entry => b.insert entry.1 entry.2) (b.mapNames f) =
      (es.foldl (fun b entry => b.insert entry.1 entry.2) b).mapNames f := by
  induction es generalizing b with
  | nil => rfl
  | cons e es ih =>
    obtain ⟨n, a⟩ := e
    have hn := hes (n, a) List.mem_cons_self
    simp only [List.map_cons, List.foldl_cons, Prod.map_apply, id_eq]
    rw [insert_mapNames a fun m hm => hf m n (hb m hm) hn]
    refine ih (fun e he => hes e (List.mem_cons_of_mem _ he)) _ fun m hm => ?_
    obtain rfl | hm := mem_names_insert.mp hm
    · exact hn
    · exact hb m hm

theorem ofList_mapNames {P : κ → Prop} (hf : ∀ m n, P m → P n → f m = f n → m = n)
    {es : List (κ × α)} (hes : ∀ e ∈ es, P e.1) :
    ofList (es.map (Prod.map f id)) = (ofList es).mapNames f :=
  foldl_insert_mapNames hf es hes empty fun _ hn => nomatch hn

end Bindings

/-! ## The new name -/

/-- The name of a variable when the parameter `x` is called `y` inside some calls. -/
def newName (x y : String) (inside : Bool) (name : String) : String :=
  if inside = true ∧ name = x then y else name

/-- A procedure with other names for its variables. -/
def Procedure.rename (ρ : String → String) (p : Procedure) : Procedure :=
  ⟨p.parameters.map ρ, Stmt.renameAll ρ p.body⟩

/-- The procedure has a parameter `x`, and does not mention `y`. -/
structure Procedure.Aliasable (x y : String) (p : Procedure) : Prop where
  bound : x ∈ p.parameters
  freshParameter : y ∉ p.parameters
  freshBody : y ∉ Stmt.allNames p.body

section

variable {x y : String}

@[simp] theorem newName_outside : newName x y false = id := by
  funext name
  simp [newName]

theorem newName_inj {inside : Bool} {m n : String} (hm : inside = true → m ≠ y)
    (hn : inside = true → n ≠ y) (h : newName x y inside m = newName x y inside n) : m = n := by
  unfold newName at h
  split at h <;> split at h
  · rename_i hl hr
    rw [hl.2, hr.2]
  · rename_i hl _
    exact absurd h.symm (hn hl.1)
  · rename_i _ hr
    exact absurd h (hm hr.1)
  · exact h

end

/-! ## Statements -/

mutual

theorem Stmt.rename_id (s : Stmt) : s.rename id = s := by
  cases s with
  | command v operands target => simp [rename]
  | ifThen c block => rw [rename, Expr.rename_id, Stmt.renameAll_id block]
  | whileDo c block => rw [rename, Expr.rename_id, Stmt.renameAll_id block]
  | define name parameters body => rfl
  | call name arguments => rw [rename, Expr.map_rename_id]
  | foreign shape => rfl

theorem Stmt.renameAll_id (ss : List Stmt) : Stmt.renameAll id ss = ss := by
  cases ss with
  | nil => rfl
  | cons s ss => rw [renameAll, Stmt.rename_id s, Stmt.renameAll_id ss]

end

/-- A statement and what it becomes when the parameter `x` of some procedures is called `y`: their
definitions change, and inside of them all that mentions the parameter. -/
inductive Became (x y : String) : Bool → Stmt → Stmt → Prop where
  | renamed {inside : Bool} {s : Stmt} : (inside = true → y ∉ s.names) →
      Became x y inside s (s.rename (newName x y inside))
  | definition {name : String} {p : Procedure} : p.Aliasable x y →
      Became x y false (.define name p.parameters p.body)
        (.define name (p.rename (newName x y true)).parameters (p.rename (newName x y true)).body)

section

variable {x y : String} {inside : Bool}

theorem Became.unchanged (s : Stmt) : Became x y false s s := by
  have h : Became x y false s (s.rename (newName x y false)) := .renamed fun h => nomatch h
  rwa [newName_outside, Stmt.rename_id] at h

theorem Became.all {ss : List Stmt} (h : inside = true → y ∉ Stmt.allNames ss) :
    List.Forall₂ (Became x y inside) ss (Stmt.renameAll (newName x y inside) ss) := by
  induction ss with
  | nil => exact .nil
  | cons s ss ih =>
    simp only [Stmt.allNames, List.mem_append, not_or] at h
    exact .cons (.renamed fun hi => (h hi).1) (ih fun hi => (h hi).2)

end

/-! ## Summaries -/

/-- A token with another name if it is a variable. -/
def Token.rename (ρ : String → String) : Token → Token
  | ⟨.variable, name⟩ => ⟨.variable, ρ name⟩
  | t => t

theorem Expr.tokens_rename (ρ : String → String) (e : Expr) :
    (e.rename ρ).tokens = e.tokens.map (List.map (Token.rename ρ)) := by
  induction e with
  | number z => rfl
  | boolean b => cases b <;> rfl
  | «variable» name => rfl
  | query q => rfl
  | numeric op l r ihl ihr =>
    simp only [rename, tokens, ihl, ihr]
    cases l.tokens with
    | error m => rfl
    | ok ls =>
      cases r.tokens with
      | error m => rfl
      | ok rs => simp [Except.map, Token.rename, Token.ofWord]
  | logic op l r ihl ihr =>
    simp only [rename, tokens, ihl, ihr]
    cases l.tokens with
    | error m => rfl
    | ok ls =>
      cases r.tokens with
      | error m => rfl
      | ok rs => simp [Except.map, Token.rename, Token.ofWord]
  | negation e ih =>
    simp only [rename, tokens, ih]
    cases e.tokens <;> rfl
  | foreign s => rfl

theorem Expr.allTokens_rename (ρ : String → String) (es : List Expr) :
    allTokens (es.map (rename ρ)) = (allTokens es).map (List.map (Token.rename ρ)) := by
  induction es with
  | nil => rfl
  | cons e es ih =>
    simp only [List.map_cons, allTokens, e.tokens_rename, ih]
    cases e.tokens with
    | error m => rfl
    | ok ts =>
      cases allTokens es with
      | error m => rfl
      | ok us => simp [Except.map]

/-- Both are shown, or neither is for the same reason. -/
abbrev ShownAlike {α : Type} : Except Misfit α → Except Misfit α → Prop :=
  Agreed Eq fun _ _ => True

theorem Stmt.header_rename (ρ : String → String) (s : Stmt) :
    ShownAlike s.header (s.rename ρ).header := by
  cases s with
  | command v operands target =>
    simp only [rename, header, Expr.allTokens_rename]
    cases Expr.allTokens operands with
    | error m => exact .error rfl
    | ok ts => cases target <;> exact .ok trivial
  | ifThen c block =>
    simp only [rename, header, Expr.tokens_rename]
    cases c.tokens with
    | error m => exact .error rfl
    | ok ts => exact .ok trivial
  | whileDo c block =>
    simp only [rename, header, Expr.tokens_rename]
    cases c.tokens with
    | error m => exact .error rfl
    | ok ts => exact .ok trivial
  | define name parameters body => exact .ok trivial
  | call name arguments =>
    simp only [rename, header, Expr.allTokens_rename]
    cases Expr.allTokens arguments with
    | error m => exact .error rfl
    | ok ts => exact .ok trivial
  | foreign shape => exact .error rfl

theorem Stmt.summary_rename (ρ : String → String) (s : Stmt) :
    ShownAlike s.summary (s.rename ρ).summary := by
  obtain ⟨m, _, h, h', rfl⟩ | ⟨ts, ts', h, h', -⟩ := (s.header_rename ρ).error_or_ok
  · rw [summary, summary, h, h']
    exact .error rfl
  · rw [summary, summary, h, h']
    exact .ok trivial

theorem Became.summary {x y : String} {inside : Bool} {s s' : Stmt} (h : Became x y inside s s') :
    ShownAlike s.summary s'.summary := by
  cases h with
  | renamed _ => exact s.summary_rename _
  | definition _ => exact .ok trivial

/-- Two runs end early for the same reason. The statement that is shown with an error may mention
the parameter by its new name. -/
inductive SameEnd (x y : String) : Halt → Halt → Prop where
  | same (why : Halt) : SameEnd x y why why
  | named {f : Fault} {inside : Bool} {s s' : Stmt} {t t' : String} : Became x y inside s s' →
      s.summary = .ok t → s'.summary = .ok t' →
      SameEnd x y (.error ⟨f, some t⟩) (.error ⟨f, some t'⟩)

theorem SameEnd.inStatement {x y : String} {inside : Bool} {s s' : Stmt} {why why' : Halt}
    (hs : Became x y inside s s') (h : SameEnd x y why why') :
    SameEnd x y (why.inStatement s) (why'.inStatement s') := by
  cases h with
  | named hinner ht ht' => exact .named hinner ht ht'
  | same =>
    unfold Halt.inStatement
    split
    · obtain ⟨_, _, ht, ht', rfl⟩ | ⟨_, _, ht, ht', -⟩ := hs.summary.error_or_ok
      · simp only [ht, ht']
        exact .same _
      · simp only [ht, ht']
        exact .named hs ht ht'
    · exact .same _

/-! ## Machines -/

section

variable {env : Environment} {scope : Scope} {outer : List Scope} {name : String} {v : Value}

theorem assign_of_bound (hs : env.scopes = scope :: outer) (h : scope.contains name = true) :
    env.assign (some name) v = { env with scopes := scope.insert name v :: outer } := by
  simp only [Environment.assign, hs, if_pos h]

theorem assign_of_free (hs : env.scopes = scope :: outer) (h : ¬scope.contains name = true) :
    env.assign (some name) v = env.assignGlobal (some name) v := by
  simp only [Environment.assign, hs, if_neg h]

end

/-- Scopes that hold the same values. Those that are flagged know the parameter `x` as `y`. -/
inductive ScopesAlike (x y : String) : List Bool → List Scope → List Scope → Prop where
  | none : ScopesAlike x y [] [] []
  | same {flags : List Bool} {scope : Scope} {outer outer' : List Scope} :
      ScopesAlike x y flags outer outer' →
      ScopesAlike x y (false :: flags) (scope :: outer) (scope :: outer')
  | renamed {flags : List Bool} {scope : Scope} {outer outer' : List Scope} :
      x ∈ scope.names → y ∉ scope.names → ScopesAlike x y flags outer outer' →
      ScopesAlike x y (true :: flags) (scope :: outer)
        (scope.mapNames (newName x y true) :: outer')

/-- A procedure and what it becomes. -/
inductive Procedure.Became (x y : String) : Procedure → Procedure → Prop where
  | unchanged (p : Procedure) : Became x y p p
  | renamed {p : Procedure} : p.Aliasable x y → Became x y p (p.rename (newName x y true))

/-- Whether the innermost call is one of those where the names differ. -/
def isInside (flags : List Bool) : Bool := flags.headD false

/-- Machines that have come equally far, where some calls know the parameter `x` as `y`. -/
structure Likeness (x y : String) (flags : List Bool) (m m' : Machine) : Prop where
  turtle : m'.env.turtle = m.env.turtle
  globals : m'.env.globals = m.env.globals
  primitives : m'.primitives = m.primitives
  procedures : ∀ name, Option.Rel (Procedure.Became x y) (m.env.procedures.lookup? name)
    (m'.env.procedures.lookup? name)
  scopes : ScopesAlike x y flags m.env.scopes m'.env.scopes

section

variable {x y : String} {flags : List Bool} {m m' : Machine}

theorem newName_inj_of_fresh {scope : Scope} (hy : y ∉ scope.names) {name : String}
    (hname : name ≠ y) : ∀ n ∈ scope.names, newName x y true n = newName x y true name → n = name :=
  fun _ hn => newName_inj (fun _ hny => hy (hny ▸ hn)) fun _ => hname

theorem newName_of_ne {name : String} (h : name ≠ x) (inside : Bool) :
    newName x y inside name = name := by
  simp [newName, h]

theorem Likeness.follows (h : Likeness x y flags m m') {name : Option String}
    (hname : isInside flags = true → name ≠ some y) :
    m.env.Follows (newName x y (isInside flags)) m'.env name := by
  obtain ⟨-, hglobals, -, -, hscopes⟩ := h
  cases name with
  | none => exact ⟨congrArg (Bindings.lookup? · none) hglobals, fun _ => rfl⟩
  | some n =>
    generalize hs : m.env.scopes = scopes at hscopes
    generalize hs' : m'.env.scopes = scopes' at hscopes
    cases hscopes with
    | none =>
      refine newName_outside ▸ .id ?_
      simp only [Environment.lookup?, hs, hs', hglobals]
    | same _ =>
      refine newName_outside ▸ .id ?_
      simp only [Environment.lookup?, hs, hs', hglobals]
    | renamed hx hy _ =>
      have hn : n ≠ y := fun hn => hname rfl (congrArg some hn)
      have hlookup := Bindings.lookup?_mapNames (newName_inj_of_fresh (x := x) hy hn)
      by_cases hnx : n = x
      · subst hnx
        obtain ⟨v, hv⟩ := Option.isSome_iff_exists.mp ((Bindings.contains_iff _ _).mpr hx)
        constructor
        · simp only [isInside, Option.map_some, Environment.lookup?, hs, hs', List.headD_cons,
            hlookup, hv]
        · intro hnone
          simp only [Environment.lookup?, hs, hv] at hnone
          cases hnone
      · constructor
        · simp only [isInside, Option.map_some, Environment.lookup?, hs, hs', List.headD_cons,
            hlookup, hglobals]
          rw [newName_of_ne hnx]
        · exact fun _ => congrArg some (newName_of_ne hnx _)

theorem Likeness.assign (h : Likeness x y flags m m') {name : Option String}
    (hname : isInside flags = true → name ≠ some y) (v : Value) :
    (m'.env.assign (name.map (newName x y (isInside flags))) v).globals =
        (m.env.assign name v).globals ∧
      ScopesAlike x y flags (m.env.assign name v).scopes
        (m'.env.assign (name.map (newName x y (isInside flags))) v).scopes := by
  obtain ⟨-, hglobals, -, -, hscopes⟩ := h
  have hinsert : ∀ key : Option String, m'.env.globals.insert key v = m.env.globals.insert key v :=
    fun key => congrArg (Bindings.insert · key v) hglobals
  cases name with
  | none => exact ⟨hinsert none, hscopes⟩
  | some n =>
    generalize hs : m.env.scopes = scopes at hscopes
    generalize hs' : m'.env.scopes = scopes' at hscopes
    rw [Option.map_some]
    cases hscopes with
    | none =>
      rw [isInside, List.headD_nil, newName_outside, id]
      simp only [Environment.assign, Environment.assignGlobal, hs, hs']
      exact ⟨hinsert _, .none⟩
    | @same _ scope _ _ houter =>
      rw [isInside, List.headD_cons, newName_outside, id]
      by_cases hbound : scope.contains n = true
      · rw [assign_of_bound hs hbound, assign_of_bound hs' hbound]
        exact ⟨hglobals, .same houter⟩
      · rw [assign_of_free hs hbound, assign_of_free hs' hbound]
        exact ⟨hinsert _, hs ▸ hs' ▸ .same houter⟩
    | @renamed _ scope _ _ hx hy houter =>
      have hinj := newName_inj_of_fresh (x := x) hy fun hn => hname rfl (congrArg some hn)
      have hcontains : (scope.mapNames (newName x y true)).contains (newName x y true n) =
          scope.contains n := congrArg Option.isSome (Bindings.lookup?_mapNames hinj)
      rw [isInside, List.headD_cons]
      by_cases hbound : scope.contains n = true
      · have hnames := Bindings.names_insert_of_contains hbound v
        rw [assign_of_bound hs hbound, assign_of_bound hs' (hcontains ▸ hbound),
          Bindings.insert_mapNames v hinj]
        exact ⟨hglobals, .renamed (hnames ▸ hx) (hnames ▸ hy) houter⟩
      · -- The parameter is bound, so the variable is another one and keeps its name.
        have hnx : n ≠ x := fun hn => hbound ((Bindings.contains_iff _ _).mpr (hn ▸ hx))
        rw [assign_of_free hs hbound, assign_of_free hs' (hcontains ▸ hbound), newName_of_ne hnx]
        exact ⟨hinsert _, hs ▸ hs' ▸ .renamed hx hy houter⟩

theorem Likeness.eval (h : Likeness x y flags m m') {e : Expr}
    (he : isInside flags = true → y ∉ e.names) :
    Agreed (SameFault (SameEnd x y)) SameDecision (e.eval m.env)
      ((e.rename (newName x y (isInside flags))).eval m'.env) := by
  refine .of_eq ?_ ?_ (Expr.eval_rename h.turtle fun _ hn => h.follows fun hi hny => ?_)
  · exact fun f => .same (.ofFault f)
  · exact fun _ => rfl
  · exact he hi (Option.some.inj hny ▸ hn)

theorem Likeness.evalAll (h : Likeness x y flags m m') {es : List Expr}
    (hes : isInside flags = true → y ∉ es.flatMap Expr.names) :
    Expr.evalAll m'.env (es.map (Expr.rename (newName x y (isInside flags)))) =
      Expr.evalAll m.env es :=
  Expr.evalAll_rename h.turtle fun _ hn =>
    h.follows fun hi hny => hes hi (Option.some.inj hny ▸ hn)

theorem Likeness.after (h : Likeness x y flags m m') {v : Verb} {operands : List Expr}
    {target : Option String}
    (hs : isInside flags = true → y ∉ (Stmt.command v operands target).names) :
    Agreed (SameEnd x y) (fun r r' => Likeness x y flags (m.after r.1 r.2) (m'.after r'.1 r'.2))
      (perform m.env v operands target)
      (perform m'.env v (operands.map (Expr.rename (newName x y (isInside flags))))
        (target.map (newName x y (isInside flags)))) := by
  simp only [Stmt.names, List.mem_append, not_or] at hs
  have htarget : isInside flags = true → target ≠ some y := by
    rintro hi rfl
    exact (hs hi).2 List.mem_cons_self
  refine (perform_rename h.turtle v (fun n hn => ?_) (h.follows htarget)).agreed .same ?_ ?_
  · exact h.follows fun hi hny => (hs hi).1 (Option.some.inj hny ▸ hn)
  · intro t drawn
    refine ⟨?_, ?_, ?_, ?_, ?_⟩
    · simp only [Machine.after_env]
    · simpa only [Machine.after_env] using h.globals
    · cases drawn <;> simp only [Machine.after, h.primitives]
    · simpa only [Machine.after_env] using h.procedures
    · simpa only [Machine.after_env] using h.scopes
  · intro value
    obtain ⟨hglobals, hscopes⟩ := h.assign htarget value
    refine ⟨?_, hglobals, h.primitives, ?_, hscopes⟩
    · simp only [Machine.after, Environment.turtle_assign, h.turtle]
    · simpa only [Machine.after, Environment.procedures_assign] using h.procedures

theorem Likeness.define (h : Likeness x y flags m m') {p p' : Procedure}
    (hp : p.Became x y p') (name : String) :
    Likeness x y flags (m.define name p) (m'.define name p') :=
  ⟨h.turtle, h.globals, h.primitives, rel_lookup?_insert h.procedures name hp, h.scopes⟩

theorem Likeness.push (h : Likeness x y flags m m') (scope : Scope) :
    Likeness x y (false :: flags) (m.pushScope scope) (m'.pushScope scope) :=
  ⟨h.turtle, h.globals, h.primitives, h.procedures, .same h.scopes⟩

theorem Likeness.pushRenamed (h : Likeness x y flags m m') {scope : Scope} (hx : x ∈ scope.names)
    (hy : y ∉ scope.names) :
    Likeness x y (true :: flags) (m.pushScope scope)
      (m'.pushScope (scope.mapNames (newName x y true))) :=
  ⟨h.turtle, h.globals, h.primitives, h.procedures, .renamed hx hy h.scopes⟩

theorem Likeness.pop {inside : Bool} (h : Likeness x y (inside :: flags) m m') :
    Likeness x y flags m.popScope m'.popScope := by
  refine ⟨h.turtle, h.globals, h.primitives, h.procedures, ?_⟩
  have hscopes := h.scopes
  simp only [Machine.popScope, Environment.popScope]
  generalize m.env.scopes = scopes at hscopes ⊢
  generalize m'.env.scopes = scopes' at hscopes ⊢
  cases hscopes with
  | same houter => exact houter
  | renamed _ _ houter => exact houter

theorem Expr.length_of_evalAll {env : Environment} {es : List Expr} {vs : List Value}
    (h : Expr.evalAll env es = .ok vs) : vs.length = es.length := by
  induction es generalizing vs with
  | nil =>
    cases h
    rfl
  | cons e es ih =>
    simp only [evalAll] at h
    split at h
    · cases h
    · split at h
      · cases h
      · rename_i hvs
        cases h
        rw [List.length_cons, List.length_cons, ih hvs]

/-- The parameters of a call have their names from the procedure. -/
theorem Procedure.Aliasable.scope {p : Procedure} (h : p.Aliasable x y) {vs : List Value}
    (hlength : vs.length = p.parameters.length) :
    x ∈ (Bindings.ofList (p.parameters.zip vs)).names ∧
      y ∉ (Bindings.ofList (p.parameters.zip vs)).names ∧
      Bindings.ofList ((p.rename (newName x y true)).parameters.zip vs) =
        (Bindings.ofList (p.parameters.zip vs)).mapNames (newName x y true) := by
  have hkeys : (p.parameters.zip vs).map Prod.fst = p.parameters :=
    List.map_fst_zip (by omega)
  rw [Bindings.mem_names_ofList, Bindings.mem_names_ofList, hkeys]
  refine ⟨h.bound, h.freshParameter, ?_⟩
  have hzip : (p.parameters.map (newName x y true)).zip vs =
      (p.parameters.zip vs).map (Prod.map (newName x y true) id) := by
    rw [← List.zip_map, List.map_id]
  rw [Procedure.rename, hzip]
  refine Bindings.ofList_mapNames (P := (· ≠ y)) ?_ ?_
  · exact fun _ _ hm hn => newName_inj (fun _ => hm) fun _ => hn
  · rintro e he rfl
    exact h.freshParameter (hkeys ▸ List.mem_map_of_mem he)

theorem Likeness.enterCall (h : Likeness x y flags m m') (name : String) {arguments : List Expr}
    (hs : isInside flags = true → y ∉ (Stmt.call name arguments).names) :
    Agreed (SameFault (SameEnd x y))
      (SameEntry (fun flags => Became x y (isInside flags)) (Likeness x y) flags m m')
      (enterCall m.env name arguments)
      (enterCall m'.env name (arguments.map (Expr.rename (newName x y (isInside flags))))) := by
  rw [Stmt.names] at hs
  have hvalues : Agreed Eq Eq (Expr.evalAll m.env arguments) (Expr.evalAll m'.env
      (arguments.map (Expr.rename (newName x y (isInside flags))))) :=
    .of_eq (fun _ => rfl) (fun _ => rfl) (h.evalAll hs)
  have hcount : ∀ {p p'}, Procedure.Became x y p p' →
      p'.parameters.length = p.parameters.length := by
    intro p p' hp
    cases hp with
    | unchanged => rfl
    | renamed _ => exact List.length_map _
  obtain ⟨f, hr, hr'⟩ | ⟨p, p', vs, _, hp, rfl, hvs, harity, hr, hr'⟩ :=
    enterCall_alike (List.length_map _) (h.procedures name) hcount hvalues
  · rw [hr, hr']
    exact .error (.same _)
  · rw [hr, hr']
    refine .ok ?_
    cases hp with
    | unchanged =>
      exact ⟨false :: flags, List.forall₂_same.mpr fun s _ => .unchanged s, h.push _,
        fun _ _ hm => hm.pop⟩
    | renamed hp =>
      have hlength : vs.length = p.parameters.length := by
        rw [Expr.length_of_evalAll hvs, harity]
      obtain ⟨hx, hy, hscope⟩ := hp.scope hlength
      refine ⟨true :: flags, Became.all fun _ => hp.freshBody, ?_, fun _ _ hm => hm.pop⟩
      rw [hscope]
      exact h.pushRenamed hx hy

end

/-- Machines that differ in the names of some parameters do the same. -/
theorem lockstep_likeness (x y : String) :
    Lockstep (fun flags => Became x y (isInside flags)) (Likeness x y) (SameEnd x y) where
  tooDeep := .same _
  outOfSteps := .same _
  named := .inStatement
  step := by
    intro flags s s' m m' hs hm
    generalize hi : isInside flags = inside at hs
    cases hs with
    | definition hp => exact .define (hm.define (.renamed hp) _)
    | renamed hy =>
      subst hi
      cases s with
      | command v operands target => exact .command (hm.after hy)
      | ifThen c block =>
        simp only [Stmt.names, List.mem_append, not_or] at hy
        exact .ifThen (hm.eval fun hi => (hy hi).1) (Became.all fun hi => (hy hi).2)
      | whileDo c block =>
        simp only [Stmt.names, List.mem_append, not_or] at hy
        exact .whileDo (hm.eval fun hi => (hy hi).1) (Became.all fun hi => (hy hi).2)
      | define name parameters body => exact .define (hm.define (.unchanged _) _)
      | call name arguments => exact .call (hm.enterCall name hy)
      | foreign shape => exact .foreign (.same _)

/-! ## Runs -/

/-- A parameter may be called by any name that its procedure does not mention. The run ends in the
same way, after the same primitives, with the turtle and the global variables the same, whatever
else the names mean in the script. -/
theorem run_rename_parameter (limits : Limits) (turtle : Turtle) (before after : Script)
    (name : String) {parameters : List String} {body : List Stmt} {x y : String}
    (hx : x ∈ parameters) (hparameters : y ∉ parameters) (hbody : y ∉ Stmt.allNames body) :
    let ρ := newName x y true
    let here := (Interpreter.on (.fresh turtle)).run limits
      (before ++ .define name parameters body :: after)
    let there := (Interpreter.on (.fresh turtle)).run limits
      (before ++ .define name (parameters.map ρ) (Stmt.renameAll ρ body) :: after)
    Option.Rel (SameEnd x y) here.2 there.2 ∧
      there.1.primitives = here.1.primitives ∧
      there.1.env.turtle = here.1.env.turtle ∧
      there.1.env.globals = here.1.env.globals := by
  intro ρ here there
  have hp : Procedure.Aliasable x y ⟨parameters, body⟩ := ⟨hx, hparameters, hbody⟩
  have hunchanged : ∀ ss : List Stmt, List.Forall₂ (Became x y false) ss ss :=
    fun ss => List.forall₂_same.mpr fun s _ => .unchanged s
  have hscript : List.Forall₂ (Became x y (isInside []))
      (before ++ .define name parameters body :: after)
      (before ++ .define name (parameters.map ρ) (Stmt.renameAll ρ body) :: after) :=
    List.rel_append (hunchanged before) (.cons (.definition hp) (hunchanged after))
  have hstart : Likeness x y [] (Interpreter.started (.on (.fresh turtle)))
      (Interpreter.started (.on (.fresh turtle))) :=
    ⟨rfl, rfl, rfl, fun _ => .none, .none⟩
  have halike := (lockstep_likeness x y).run hscript hstart limits
  simp only [here, there, Interpreter.halt_run, Interpreter.primitives_run, Interpreter.env_run]
  obtain ⟨m, m', ho, ho', hm⟩ | ⟨why, why', m, m', ho, ho', hwhy, hm⟩ := halike.done_or_halted
  · rw [ho, ho']
    exact ⟨.none, congrArg Array.toList hm.primitives, hm.turtle, hm.globals⟩
  · rw [ho, ho']
    exact ⟨.some hwhy, congrArg Array.toList hm.primitives, hm.turtle, hm.globals⟩

/-- The name is taken from a global variable and is that of a parameter of a procedure called
inside, which in turn sees the global variable of the old name. -/
theorem run_rename_parameter_taken :
    let first : Script := [.command .make [.boolean true] (some "x"),
      .command .make [.boolean true] (some "y"),
      .define "Q" ["y"] [.command .make [.variable "x"] (some "z"),
        .command .make [.variable "y"] (some "w")]]
    let here := (Interpreter.on (.fresh (.startingAt 0.0 0.0))).run ⟨9, 99⟩
      (first ++ [.define "P" ["x"] [.call "Q" [.variable "x"]], .call "P" [.boolean false]])
    let there := (Interpreter.on (.fresh (.startingAt 0.0 0.0))).run ⟨9, 99⟩
      (first ++ [.define "P" ["y"] [.call "Q" [.variable "y"]], .call "P" [.boolean false]])
    there.1.env.globals = here.1.env.globals ∧
      here.1.env.globals.lookup? (some "z") = some (.truth true) ∧
      here.1.env.globals.lookup? (some "w") = some (.truth false) := by
  intro first here there
  have hrename := @run_rename_parameter ⟨9, 99⟩ (.startingAt 0.0 0.0) first
    [.call "P" [.boolean false]] "P" ["x"] [.call "Q" [.variable "x"]] "x" "y"
    (by decide) (by decide) (by decide)
  exact ⟨hrename.2.2.2, rfl, rfl⟩

end TurtleGraphics
