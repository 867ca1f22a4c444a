import TurtleGraphics.Proofs.Agreement

/-!
# TurtleGraphics.Proofs.Names

The variables that are mentioned in a script, and what happens when they get other names.

* `Expr.names`, `Stmt.names`   : the variables that are mentioned.
* `Expr.rename`, `Stmt.rename` : the same with other names for variables.
* `Environment.Follows`        : a new name means in one environment what the old one means in
  another.
* `Expr.eval_rename`, `perform_rename` : an expression and a command do the same in two environments
  if the new names of the variables that they mention follow the old ones.

Only variables have new names; words of the language and procedures keep theirs. A renaming that
changes nothing says what else two environments may differ in.
-/

namespace TurtleGraphics

namespace Expr

/-- The variables that an expression mentions. -/
def names : Expr → List String
  | .variable name => [name]
  | .numeric _ l r => l.names ++ r.names
  | .logic _ l r => l.names ++ r.names
  | .negation e => e.names
  | _ => []

/-- An expression with other names for its variables. -/
def rename (ρ : String → String) : Expr → Expr
  | .variable name => .variable (ρ name)
  | .numeric op l r => .numeric op (l.rename ρ) (r.rename ρ)
  | .logic op l r => .logic op (l.rename ρ) (r.rename ρ)
  | .negation e => .negation (e.rename ρ)
  | e => e

@[simp] theorem rename_id (e : Expr) : e.rename id = e := by
  induction e with
  | numeric op l r ihl ihr => rw [rename, ihl, ihr]
  | logic op l r ihl ihr => rw [rename, ihl, ihr]
  | negation e ih => rw [rename, ih]
  | _ => rfl

@[simp] theorem map_rename_id (es : List Expr) : es.map (rename id) = es := by
  induction es with
  | nil => rfl
  | cons e es ih => rw [List.map_cons, rename_id, ih]

end Expr

mutual

/-- The variables that a statement mentions, to read or to set them. A definition inside mentions
its own. -/
def Stmt.names : Stmt → List String
  | .command _ operands target => operands.flatMap Expr.names ++ target.toList
  | .ifThen c block => c.names ++ Stmt.allNames block
  | .whileDo c block => c.names ++ Stmt.allNames block
  | .define _ _ _ => []
  | .call _ arguments => arguments.flatMap Expr.names
  | .foreign _ => []

/-- The variables that statements mention. -/
def Stmt.allNames : List Stmt → List String
  | [] => []
  | s :: rest => s.names ++ Stmt.allNames rest

end

mutual

/-- A statement with other names for its variables. -/
def Stmt.rename (ρ : String → String) : Stmt → Stmt
  | .command v operands target => .command v (operands.map (Expr.rename ρ)) (target.map ρ)
  | .ifThen c block => .ifThen (c.rename ρ) (Stmt.renameAll ρ block)
  | .whileDo c block => .whileDo (c.rename ρ) (Stmt.renameAll ρ block)
  | .call name arguments => .call name (arguments.map (Expr.rename ρ))
  | s => s

/-- Statements with other names for their variables. -/
def Stmt.renameAll (ρ : String → String) : List Stmt → List Stmt
  | [] => []
  | s :: rest => s.rename ρ :: Stmt.renameAll ρ rest

end

/-! ## Values -/

/-- A variable has the same value as its new name has in another environment. Where it has none,
the new name is the old one, so that the same variable is missed. -/
structure Environment.Follows (ρ : String → String) (env env' : Environment)
    (name : Option String) : Prop where
  same : env'.lookup? (name.map ρ) = env.lookup? name
  missed : env.lookup? name = none → name.map ρ = name

theorem Environment.Follows.id {env env' : Environment} {name : Option String}
    (h : env'.lookup? name = env.lookup? name) : env.Follows id env' name :=
  ⟨by rw [Option.map_id_apply, h], fun _ => Option.map_id_apply⟩

section

variable {ρ : String → String} {env env' : Environment}

theorem Expr.eval_rename (hturtle : env'.turtle = env.turtle) {e : Expr}
    (h : ∀ n ∈ e.names, env.Follows ρ env' (some n)) : (e.rename ρ).eval env' = e.eval env := by
  induction e with
  | number x => rfl
  | boolean b => rfl
  | «variable» name =>
    obtain ⟨hsame, hmissed⟩ := h name (by simp [names])
    rw [Option.map_some] at hsame hmissed
    simp only [rename, eval, hsame]
    split
    · rfl
    · rename_i hnone
      rw [hmissed hnone]
  | query q => simp only [rename, eval, hturtle]
  | numeric op l r ihl ihr =>
    have hl := ihl fun n hn => h n (List.mem_append_left _ hn)
    have hr := ihr fun n hn => h n (List.mem_append_right _ hn)
    simp only [rename, eval, hl, hr]
  | logic op l r ihl ihr =>
    have hl := ihl fun n hn => h n (List.mem_append_left _ hn)
    have hr := ihr fun n hn => h n (List.mem_append_right _ hn)
    simp only [rename, eval, hl, hr]
  | negation e ih => simp only [rename, eval, ih h]
  | foreign s => rfl

theorem Expr.evalAll_rename (hturtle : env'.turtle = env.turtle) {es : List Expr}
    (h : ∀ n ∈ es.flatMap Expr.names, env.Follows ρ env' (some n)) :
    Expr.evalAll env' (es.map (Expr.rename ρ)) = Expr.evalAll env es := by
  induction es with
  | nil => rfl
  | cons e es ih =>
    rw [List.flatMap_cons] at h
    have he := Expr.eval_rename hturtle fun n hn => h n (List.mem_append_left _ hn)
    have hes := ih fun n hn => h n (List.mem_append_right _ hn)
    simp only [List.map_cons, evalAll, he, hes]

/-! ## Commands -/

/-- Two commands end in the same way: they fail alike, steer the turtle alike, or set a variable to
the same value. -/
inductive SameEffect (env env' : Environment) (target target' : Option String) :
    Except Halt Effect → Except Halt Effect → Prop where
  | failed (why : Halt) : SameEffect env env' target target' (.error why) (.error why)
  | steered (t : Turtle) (drawn : Option Primitive) :
      SameEffect env env' target target' (.ok ({ env with turtle := t }, drawn))
        (.ok ({ env' with turtle := t }, drawn))
  | assigned (v : Value) :
      SameEffect env env' target target' (.ok (env.assign target v, none))
        (.ok (env'.assign target' v, none))

theorem SameEffect.agreed {target target' : Option String} {Failures : Halt → Halt → Prop}
    {Values : Effect → Effect → Prop} {r r' : Except Halt Effect}
    (h : SameEffect env env' target target' r r') (hfailed : ∀ why, Failures why why)
    (hsteered : ∀ t drawn,
      Values ({ env with turtle := t }, drawn) ({ env' with turtle := t }, drawn))
    (hassigned : ∀ v, Values (env.assign target v, none) (env'.assign target' v, none)) :
    Agreed Failures Values r r' := by
  cases h with
  | failed why => exact .error (hfailed why)
  | steered t drawn => exact .ok (hsteered t drawn)
  | assigned v => exact .ok (hassigned v)

section

variable {operands : List Expr} {target target' : Option String}

theorem operandValue_rename (hturtle : env'.turtle = env.turtle)
    (h : ∀ n ∈ operands.flatMap Expr.names, env.Follows ρ env' (some n)) :
    operandValue env' (operands.map (Expr.rename ρ)) = operandValue env operands := by
  cases operands with
  | nil => rfl
  | cons e es =>
    rw [List.flatMap_cons] at h
    have he := Expr.eval_rename hturtle fun n hn => h n (List.mem_append_left _ hn)
    simp only [List.map_cons, operandValue, he]

/-- A command knows an environment by the turtle, the value of its operand and its variable. -/
theorem perform_same {operands' : List Expr} (hturtle : env'.turtle = env.turtle)
    (hvalue : operandValue env' operands' = operandValue env operands) (v : Verb)
    (hsame : env'.lookup? target' = env.lookup? target)
    (hmissed : env.lookup? target = none → target' = target) :
    SameEffect env env' target target' (perform env v operands target)
      (perform env' v operands' target') := by
  have hoperand : Agreed Eq Eq (operandValue env operands) (operandValue env' operands') :=
    .of_eq (fun _ => rfl) (fun _ => rfl) hvalue
  have halike := perform_alike .same .same hturtle.symm v hoperand (optionRel_eq_iff.mpr hsame)
    hmissed
  generalize perform env v operands target = r at halike
  generalize perform env' v operands' target' = r' at halike
  cases halike with
  | failed why => exact .failed why
  | steered ht hdrawn =>
    rw [ht, optionRel_eq_iff.mp hdrawn]
    exact .steered _ _
  | assigned hv =>
    rw [hv]
    exact .assigned _

end

theorem perform_rename (hturtle : env'.turtle = env.turtle) (v : Verb) {operands : List Expr}
    {target : Option String}
    (hoperands : ∀ n ∈ operands.flatMap Expr.names, env.Follows ρ env' (some n))
    (htarget : env.Follows ρ env' target) :
    SameEffect env env' target (target.map ρ) (perform env v operands target)
      (perform env' v (operands.map (Expr.rename ρ)) (target.map ρ)) :=
  perform_same hturtle (operandValue_rename hturtle hoperands) v htarget.same htarget.missed

end

end TurtleGraphics
