import TurtleGraphics.Proofs.Names

/-!
# TurtleGraphics.Proofs.Scopes

The parameters of calls that are under way.

* `ScopesKept`       : the innermost scope binds the same names, and nothing below it has changed.
* `upholds_scopes`   : every execution keeps the scopes, whatever it does and however it ends.
* `Shares`           : two machines that differ only in the scopes below some that they share.
* `lockstep_shares`  : what those do is the same, because nobody looks further down.
* `run_keeps_scopes` : both, for a run in any environment.
-/

namespace TurtleGraphics

/-! ## What stays of the scopes -/

/-- The innermost scope binds the names that it bound before, and the scopes below are as before. -/
inductive ScopesKept : List Scope → List Scope → Prop where
  | none : ScopesKept [] []
  | some {scope scope' : Scope} {outer : List Scope} : scope'.names = scope.names →
      ScopesKept (scope :: outer) (scope' :: outer)

/-- Scopes lie on top of others that are kept. -/
def ScopesAbove (base scopes : List Scope) : Prop :=
  ∃ inner kept, scopes = inner ++ kept ∧ ScopesKept base kept

namespace ScopesKept

theorem refl (scopes : List Scope) : ScopesKept scopes scopes := by
  cases scopes with
  | nil => exact .none
  | cons scope outer => exact .some rfl

theorem trans {a b c : List Scope} (hab : ScopesKept a b) (hbc : ScopesKept b c) :
    ScopesKept a c := by
  cases hab with
  | none => exact hbc
  | some h =>
    cases hbc with
    | some h' => exact .some (h'.trans h)

theorem length_eq {a b : List Scope} (h : ScopesKept a b) : b.length = a.length := by
  cases h <;> rfl

theorem tail {scope : Scope} {outer scopes : List Scope} (h : ScopesKept (scope :: outer) scopes) :
    scopes.tail = outer := by
  cases h with
  | some _ => rfl

end ScopesKept

namespace ScopesAbove

variable {base scopes : List Scope}

theorem refl (base : List Scope) : ScopesAbove base base := ⟨[], base, rfl, .refl base⟩

theorem push (h : ScopesAbove base scopes) (scope : Scope) :
    ScopesAbove base (scope :: scopes) := by
  obtain ⟨inner, kept, rfl, hkept⟩ := h
  exact ⟨scope :: inner, kept, rfl, hkept⟩

theorem mono (h : ScopesAbove base scopes) {scopes' : List Scope}
    (hkept : ScopesKept scopes scopes') : ScopesAbove base scopes' := by
  obtain ⟨inner, kept, rfl, hbase⟩ := h
  cases inner with
  | nil => exact ⟨[], scopes', rfl, hbase.trans hkept⟩
  | cons scope inner =>
    -- The innermost scope lies above those in question, which are then the very same.
    cases hkept with
    | @some _ scope' _ _ => exact ⟨scope' :: inner, kept, rfl, hbase⟩

end ScopesAbove

theorem scopesKept_assign (env : Environment) (name : Option String) (v : Value) :
    ScopesKept env.scopes (env.assign name v).scopes := by
  unfold Environment.assign
  split
  · rename_i parameter scope outer hscopes
    split
    · rename_i hbound
      rw [hscopes]
      exact .some (Bindings.names_insert_of_contains hbound v)
    · exact .refl _
  · exact .refl _

theorem scopesKept_perform {env env' : Environment} {v : Verb} {operands : List Expr}
    {target : Option String} {drawn : Option Primitive}
    (h : perform env v operands target = .ok (env', drawn)) :
    ScopesKept env.scopes env'.scopes := by
  obtain ⟨t, rfl, -⟩ | ⟨-, -, value, rfl⟩ := perform_cases h
  · exact .refl _
  · exact scopesKept_assign env target value

theorem upholds_scopes (base : List Scope) :
    Upholds (fun _ m => ScopesAbove base m.env.scopes)
      (fun m m' => ScopesKept m.env.scopes m'.env.scopes) where
  refl _ := .refl _
  trans := .trans
  head h := h
  tail h _ hkept := h.mono hkept
  ifThen h := h
  whileDo h := h
  again h hkept := h.mono hkept
  body h _ := h.push _
  command _ hp := by
    rw [Machine.after_env]
    exact scopesKept_perform hp
  define _ := .refl _
  leave h := by
    simp only [Machine.popScope, Environment.popScope, h.tail]
    exact .refl _

/-! ## What is out of sight -/

/-- The same environment with other scopes. -/
def Environment.withScopes (env : Environment) (scopes : List Scope) : Environment :=
  { env with scopes := scopes }

/-- The same machine with other scopes. -/
def Machine.withScopes (m : Machine) (scopes : List Scope) : Machine :=
  { m with env := m.env.withScopes scopes }

/-- Two machines have the innermost `n + 1` scopes and all else in common, and the first has `outer`
below these where the second has `outer'`. -/
def Shares (outer outer' : List Scope) (n : Nat) (m m' : Machine) : Prop :=
  ∃ scope inner, inner.length = n ∧ m.env.scopes = scope :: (inner ++ outer) ∧
    m' = m.withScopes (scope :: (inner ++ outer'))

section

variable {env : Environment} {scope : Scope} {rest : List Scope}

@[simp] theorem turtle_withScopes (scopes : List Scope) :
    (env.withScopes scopes).turtle = env.turtle := rfl

theorem lookup?_withScopes (h : env.scopes = scope :: rest) (rest' : List Scope)
    (name : Option String) :
    (env.withScopes (scope :: rest')).lookup? name = env.lookup? name := by
  cases name with
  | none => rfl
  | some n => simp only [Environment.lookup?, Environment.withScopes, h]

theorem assign_withScopes (h : env.scopes = scope :: rest) (rest' : List Scope)
    (name : Option String) (v : Value) :
    ∃ scope', (env.assign name v).scopes = scope' :: rest ∧
      (env.withScopes (scope :: rest')).assign name v =
        (env.assign name v).withScopes (scope' :: rest') := by
  cases name with
  | none => exact ⟨scope, h, rfl⟩
  | some n =>
    simp only [Environment.assign, Environment.withScopes, h]
    split
    · exact ⟨scope.insert n v, rfl, rfl⟩
    · exact ⟨scope, h, rfl⟩

theorem eval_withScopes (h : env.scopes = scope :: rest) (rest' : List Scope) (e : Expr) :
    e.eval (env.withScopes (scope :: rest')) = e.eval env := by
  have hrename : (e.rename id).eval (env.withScopes (scope :: rest')) = e.eval env :=
    Expr.eval_rename (turtle_withScopes _) fun n _ => .id (lookup?_withScopes h rest' (some n))
  rwa [Expr.rename_id] at hrename

theorem evalAll_withScopes (h : env.scopes = scope :: rest) (rest' : List Scope)
    (es : List Expr) :
    Expr.evalAll (env.withScopes (scope :: rest')) es = Expr.evalAll env es := by
  have hrename : Expr.evalAll (env.withScopes (scope :: rest')) (es.map (Expr.rename id)) =
      Expr.evalAll env es :=
    Expr.evalAll_rename (turtle_withScopes _) fun n _ => .id (lookup?_withScopes h rest' (some n))
  rwa [Expr.map_rename_id] at hrename

theorem enterCall_withScopes (h : env.scopes = scope :: rest) (rest' : List Scope)
    (name : String) (arguments : List Expr) :
    enterCall (env.withScopes (scope :: rest')) name arguments = enterCall env name arguments := by
  simp only [enterCall, evalAll_withScopes h]
  rfl

end

section

variable {outer outer' : List Scope} {n : Nat} {m m' : Machine}

theorem Shares.after (h : Shares outer outer' n m m') (v : Verb) (operands : List Expr)
    (target : Option String) :
    Agreed Eq (fun r r' => Shares outer outer' n (m.after r.1 r.2) (m'.after r'.1 r'.2))
      (perform m.env v operands target) (perform m'.env v operands target) := by
  obtain ⟨scope, inner, hlength, hscopes, rfl⟩ := h
  have hlookup := lookup?_withScopes hscopes (inner ++ outer') target
  have hvalue : operandValue (m.env.withScopes (scope :: (inner ++ outer'))) operands =
      operandValue m.env operands := by
    simp only [operandValue, eval_withScopes hscopes]
  refine (perform_same (turtle_withScopes _) hvalue v hlookup fun _ => rfl).agreed (fun _ => rfl)
    ?_ ?_
  · intro t drawn
    exact ⟨scope, inner, hlength, by rw [Machine.after_env]; exact hscopes, by cases drawn <;> rfl⟩
  · intro value
    obtain ⟨scope', hscopes', henv⟩ := assign_withScopes hscopes (inner ++ outer') target value
    exact ⟨scope', inner, hlength, hscopes', congrArg (Machine.mk · _ _) henv⟩

theorem Shares.eval (h : Shares outer outer' n m m') (e : Expr) :
    Agreed (SameFault Eq) SameDecision (e.eval m.env) (e.eval m'.env) := by
  obtain ⟨scope, inner, -, hscopes, rfl⟩ := h
  refine .of_eq ?_ ?_ (eval_withScopes hscopes _ e)
  · exact fun _ => rfl
  · exact fun _ => rfl

theorem Shares.define (h : Shares outer outer' n m m') (name : String) (p : Procedure) :
    Shares outer outer' n (m.define name p) (m'.define name p) := by
  obtain ⟨scope, inner, hlength, hscopes, rfl⟩ := h
  exact ⟨scope, inner, hlength, hscopes, rfl⟩

theorem Shares.push (h : Shares outer outer' n m m') (scope : Scope) :
    Shares outer outer' (n + 1) (m.pushScope scope) (m'.pushScope scope) := by
  obtain ⟨top, inner, hlength, hscopes, rfl⟩ := h
  refine ⟨scope, top :: inner, by simp [hlength], ?_, rfl⟩
  simp only [Machine.pushScope, Environment.pushScope, hscopes, List.cons_append]

theorem Shares.pop (h : Shares outer outer' (n + 1) m m') :
    Shares outer outer' n m.popScope m'.popScope := by
  obtain ⟨scope, inner, hlength, hscopes, rfl⟩ := h
  obtain ⟨top, inner, rfl⟩ := List.exists_cons_of_length_eq_add_one hlength
  refine ⟨top, inner, by simpa using hlength, ?_, rfl⟩
  simp only [Machine.popScope, Environment.popScope, hscopes, List.tail_cons, List.cons_append]

theorem Shares.enterCall (h : Shares outer outer' n m m') (name : String)
    (arguments : List Expr) :
    Agreed (SameFault Eq) (SameEntry (fun _ => Eq) (Shares outer outer') n m m')
      (enterCall m.env name arguments) (enterCall m'.env name arguments) := by
  have hsame : TurtleGraphics.enterCall m'.env name arguments =
      TurtleGraphics.enterCall m.env name arguments := by
    obtain ⟨scope, inner, -, hscopes, rfl⟩ := h
    exact enterCall_withScopes hscopes _ name arguments
  refine .of_eq ?_ ?_ hsame
  · exact fun _ => rfl
  · rintro ⟨scope, body⟩
    exact ⟨n + 1, List.forall₂_refl body, h.push scope, fun _ _ hm => hm.pop⟩

end

/-- Machines that differ out of sight do the same. -/
theorem lockstep_shares (outer outer' : List Scope) :
    Lockstep (fun _ => Eq) (Shares outer outer') Eq :=
  .of_eq Shares.after Shares.eval Shares.define Shares.enterCall

/-! ## Runs -/

/-- The scopes of calls are kept by a run in any environment and to any end. As many are left as
there were, those below the innermost are untouched, and the innermost binds the same names. The
same holds from the start to the end of every execution inside the run, and at every moment of that:
so a scope that a call has pushed keeps its names for as long as the call lasts. What lies below the
innermost scope makes no difference to the run. -/
theorem run_keeps_scopes (limits : Limits) (env : Environment) (script : Script) :
    ((Interpreter.on env).run limits script).1.env.depth = env.depth ∧
    ScopesKept env.scopes ((Interpreter.on env).run limits script).1.env.scopes ∧
    (∀ c, (Moment.ofRun limits env script).Reaches c →
      ScopesKept c.machine.env.scopes c.outcome.machine.env.scopes ∧
      ∀ c', c.Reaches c' → ScopesAbove c.machine.env.scopes c'.machine.env.scopes) ∧
    ∀ scope outer outer',
      let here := (Interpreter.on (env.withScopes (scope :: outer))).run limits script
      let there := (Interpreter.on (env.withScopes (scope :: outer'))).run limits script
      there.2 = here.2 ∧ there.1.primitives = here.1.primitives ∧
        ∃ scope', here.1.env.scopes = scope' :: outer ∧
          there.1.env = here.1.env.withScopes (scope' :: outer') := by
  have hkept : ScopesKept env.scopes ((Interpreter.on env).run limits script).1.env.scopes := by
    rw [Interpreter.env_run]
    exact (upholds_scopes env.scopes).outcome (c := Moment.ofRun limits env script) (.refl _)
  refine ⟨hkept.length_eq, hkept, ?_, ?_⟩
  · intro c _
    have hc : ScopesAbove c.machine.env.scopes c.machine.env.scopes := .refl _
    exact ⟨(upholds_scopes _).outcome hc, fun c' hr => (upholds_scopes _).reaches hc hr⟩
  · intro scope outer outer'
    have hstart : Shares outer outer' 0
        (Interpreter.started (.on (env.withScopes (scope :: outer))))
        (Interpreter.started (.on (env.withScopes (scope :: outer')))) :=
      ⟨scope, [], rfl, rfl, rfl⟩
    have halike :=
      (lockstep_shares outer outer').run (List.forall₂_refl script) hstart limits
    simp only [Interpreter.halt_run, Interpreter.primitives_run, Interpreter.env_run]
    obtain ⟨m, m', ho, ho', hm⟩ | ⟨why, why', m, m', ho, ho', rfl, hm⟩ := halike.done_or_halted
    all_goals
      rw [ho, ho']
      obtain ⟨scope', inner, hlength, hscopes, rfl⟩ := hm
      rw [List.length_eq_zero_iff.mp hlength] at hscopes ⊢
      exact ⟨rfl, rfl, scope', hscopes, rfl⟩

/-- In the middle of a call: its parameter is still the one name of the innermost scope when the
body has set it, and also when the body has set a global variable and failed. -/
theorem run_keeps_scopes_in_call :
    let start := Moment.ofRun ⟨9, 99⟩ (.fresh (.startingAt 0.0 0.0))
      [.define "P" ["x"] [.command .make [.boolean true] (some "x"),
        .command .make [.boolean true] (some "y"), .command .addAssign [.boolean true] (some "z")],
       .call "P" [.boolean false]]
    ∃ c, start.Reaches c ∧ c.machine.env.scopes = [⟨[("x", .truth false)]⟩] ∧
      ScopesKept c.machine.env.scopes c.outcome.machine.env.scopes ∧
      ∀ c', c.Reaches c' → ScopesAbove c.machine.env.scopes c'.machine.env.scopes := by
  intro start
  obtain ⟨c, hr, hc⟩ : ∃ c, start.Reaches c ∧ c.machine.env.scopes = [⟨[("x", .truth false)]⟩] :=
    ⟨_, .head .enter (.head (.next rfl) (.head .first (.single (.call rfl)))), rfl⟩
  exact ⟨c, hr, hc, (run_keeps_scopes ⟨9, 99⟩ _ _).2.2.1 c hr⟩

end TurtleGraphics
