import TurtleGraphics.Proofs.Renaming
import TurtleGraphics.Proofs.Scopes

/-!
# TurtleGraphics.Proofs.Globals

Global variables that a script cannot reach.

An assignment sets a parameter of the call that it is executed in, if there is one of the name. So
a global variable is safe from all assignments in bodies of procedures that have a parameter of its
name. Which procedure a name stands for is not known before the run, and it need not be known: the
parameters of a procedure are bound whenever its body is executed, because a call has as many
arguments as the procedure has parameters.

* `Stmt.spares`      : no assignment in a statement can reach the global variable of a name.
* `Environment.shadows` : the call that is being executed has a parameter of the name.
* `Sparing`          : the invariant, that what is being executed spares the variable, and so do the
  bodies of all procedures.
* `run_spares_global` : the variable is as before at every moment of a run and in the end.
-/

namespace TurtleGraphics

/-! ## Assignments out of reach -/

mutual

/-- Whether no assignment in a statement can reach the global variable of a name. `shadowed` tells
if the procedure that the statement stands in has a parameter of the name. Inside a definition that
is decided by the parameters of the definition alone. -/
def Stmt.spares (x : String) (shadowed : Bool) : Stmt → Bool
  | .command v _ target => shadowed || !(v.takesName && target == some x)
  | .ifThen _ block => Stmt.allSpare x shadowed block
  | .whileDo _ block => Stmt.allSpare x shadowed block
  | .define _ parameters body => Stmt.allSpare x (parameters.contains x) body
  | .call _ _ => true
  | .foreign _ => true

/-- Whether no assignment in several statements can reach the global variable of a name. -/
def Stmt.allSpare (x : String) (shadowed : Bool) : List Stmt → Bool
  | [] => true
  | s :: rest => s.spares x shadowed && Stmt.allSpare x shadowed rest

end

/-- No assignment in the body of a procedure can reach the global variable of a name. -/
def Procedure.Spares (x : String) (p : Procedure) : Prop :=
  Stmt.allSpare x (p.parameters.contains x) p.body = true

/-- The same of all procedures that are defined. -/
def TableSpares (x : String) (table : Bindings String Procedure) : Prop :=
  ∀ name p, table.lookup? name = some p → p.Spares x

@[simp] theorem Stmt.allSpare_cons (x : String) (shadowed : Bool) (s : Stmt) (rest : List Stmt) :
    Stmt.allSpare x shadowed (s :: rest) = true ↔
      s.spares x shadowed = true ∧ Stmt.allSpare x shadowed rest = true := by
  simp [Stmt.allSpare]

theorem Stmt.allSpare_singleton (x : String) (shadowed : Bool) (s : Stmt) :
    Stmt.allSpare x shadowed [s] = true ↔ s.spares x shadowed = true := by
  simp [Stmt.allSpare]

theorem TableSpares.insert {x : String} {table : Bindings String Procedure}
    (h : TableSpares x table) (name : String) {p : Procedure} (hp : p.Spares x) :
    TableSpares x (table.insert name p) := by
  intro other q hq
  by_cases hn : other = name
  · subst hn
    rw [table.lookup?_insert_self] at hq
    cases hq
    exact hp
  · rw [table.lookup?_insert_of_ne hn] at hq
    exact h other q hq

/-! ## Parameters in the way -/

/-- Whether the call that is being executed has a parameter of a name. -/
def Environment.shadows (env : Environment) (x : String) : Bool :=
  match env.scopes with
  | [] => false
  | scope :: _ => scope.contains x

theorem Bindings.contains_congr {b b' : Scope} (h : b'.names = b.names) (x : String) :
    b'.contains x = b.contains x := by
  rw [Bool.eq_iff_iff, b'.contains_iff, b.contains_iff, h]

theorem shadows_of_scopesKept {env env' : Environment} (h : ScopesKept env.scopes env'.scopes)
    (x : String) : env'.shadows x = env.shadows x := by
  unfold Environment.shadows
  generalize env.scopes = before at h
  generalize env'.scopes = behind at h
  cases h with
  | none => rfl
  | some hnames => exact Bindings.contains_congr hnames x

/-- An assignment reaches the global variable of a name only under this name, and not if there is a
parameter in the way. -/
theorem globals_assign {env : Environment} {x : String} {name : Option String}
    (h : env.shadows x = true ∨ name ≠ some x) (v : Value) :
    (env.assign name v).globals.lookup? (some x) = env.globals.lookup? (some x) := by
  by_cases hname : name = some x
  · subst hname
    have hshadows : env.shadows x = true := h.resolve_right (fun hne => hne rfl)
    unfold Environment.shadows at hshadows
    split at hshadows
    · cases hshadows
    · rename_i scope outer hscopes
      simp only [Environment.assign, hscopes, hshadows, if_true]
  · have hglobal : (env.assignGlobal name v).globals.lookup? (some x) =
        env.globals.lookup? (some x) :=
      env.globals.lookup?_insert_of_ne (Ne.symm hname) v
    unfold Environment.assign
    split
    · split
      · rfl
      · exact hglobal
    · exact hglobal

/-- The body of a procedure is executed with all of its parameters bound. -/
theorem shadows_of_enterCall {m : Machine} {name x : String} {arguments : List Expr}
    {scope : Scope} {body : List Stmt} (h : enterCall m.env name arguments = .ok (scope, body)) :
    ∃ p, m.env.procedures.lookup? name = some p ∧ body = p.body ∧
      (m.pushScope scope).env.shadows x = p.parameters.contains x := by
  obtain ⟨p, vs, hp, hlength, hvs, rfl, rfl⟩ := enterCall_cases h
  have hcount : p.parameters.length ≤ vs.length :=
    Nat.le_of_eq (hlength.symm.trans (Expr.length_of_evalAll hvs).symm)
  have hnames : (p.parameters.zip vs).map Prod.fst = p.parameters := List.map_fst_zip hcount
  refine ⟨p, hp, rfl, ?_⟩
  rw [Bool.eq_iff_iff, List.contains_iff_mem]
  simp only [Machine.pushScope, Environment.pushScope, Environment.shadows]
  rw [Bindings.contains_iff, Bindings.mem_names_ofList, hnames]

/-! ## The invariant -/

/-- What is executed, and every procedure that it might call, spares a global variable that has a
certain value, or none. -/
structure Sparing (x : String) (value : Option Value) (ss : List Stmt) (m : Machine) : Prop where
  code : Stmt.allSpare x (m.env.shadows x) ss = true
  table : TableSpares x m.env.procedures
  global : m.env.globals.lookup? (some x) = value

/-- The global variable is as before, and what spared it still does. -/
structure KeepsGlobal (x : String) (m m' : Machine) : Prop where
  scopes : ScopesKept m.env.scopes m'.env.scopes
  table : TableSpares x m.env.procedures → TableSpares x m'.env.procedures
  global : m'.env.globals.lookup? (some x) = m.env.globals.lookup? (some x)

namespace KeepsGlobal

variable {x : String} {m m₁ m₂ : Machine}

theorem refl (m : Machine) : KeepsGlobal x m m := ⟨.refl _, id, rfl⟩

theorem trans (h₁ : KeepsGlobal x m m₁) (h₂ : KeepsGlobal x m₁ m₂) : KeepsGlobal x m m₂ where
  scopes := h₁.scopes.trans h₂.scopes
  table ht := h₂.table (h₁.table ht)
  global := h₂.global.trans h₁.global

end KeepsGlobal

namespace Sparing

variable {x : String} {value : Option Value} {m : Machine}

theorem mono {ss : List Stmt} {m' : Machine} (h : Sparing x value ss m)
    (hkeeps : KeepsGlobal x m m') : Sparing x value ss m' where
  code := by
    rw [shadows_of_scopesKept hkeeps.scopes]
    exact h.code
  table := hkeeps.table h.table
  global := hkeeps.global.trans h.global

theorem head {s : Stmt} {rest : List Stmt} (h : Sparing x value (s :: rest) m) :
    Sparing x value [s] m where
  code := by
    rw [Stmt.allSpare_singleton]
    exact ((Stmt.allSpare_cons ..).mp h.code).1
  table := h.table
  global := h.global

theorem tail {s : Stmt} {rest : List Stmt} (h : Sparing x value (s :: rest) m) :
    Sparing x value rest m where
  code := ((Stmt.allSpare_cons ..).mp h.code).2
  table := h.table
  global := h.global

theorem body {name : String} {arguments : List Expr} {scope : Scope} {body : List Stmt}
    (h : Sparing x value [.call name arguments] m)
    (hc : enterCall m.env name arguments = .ok (scope, body)) :
    Sparing x value body (m.pushScope scope) := by
  obtain ⟨p, hp, rfl, hshadows⟩ := shadows_of_enterCall (x := x) hc
  refine ⟨?_, h.table, h.global⟩
  rw [hshadows]
  exact h.table name p hp

theorem keeps_of_command {v : Verb} {operands : List Expr} {target : Option String}
    {env : Environment} {drawn : Option Primitive}
    (h : Sparing x value [.command v operands target] m)
    (hp : perform m.env v operands target = .ok (env, drawn)) :
    KeepsGlobal x m (m.after env drawn) := by
  refine ⟨?_, ?_, ?_⟩
  · rw [Machine.after_env]
    exact scopesKept_perform hp
  · rw [Machine.after_env, perform_procedures hp]
    exact id
  · rw [Machine.after_env]
    obtain ⟨t, rfl, -⟩ | ⟨htakes, -, result, rfl⟩ := perform_cases hp
    · rfl
    · have hcode := (Stmt.allSpare_singleton ..).mp h.code
      refine globals_assign ?_ result
      simpa [Stmt.spares, htakes] using hcode

theorem keeps_of_define {name : String} {parameters : List String} {body : List Stmt}
    (h : Sparing x value [.define name parameters body] m) :
    KeepsGlobal x m (m.define name ⟨parameters, body⟩) where
  scopes := .refl _
  table ht := ht.insert name ((Stmt.allSpare_singleton ..).mp h.code)
  global := rfl

end Sparing

theorem upholds_sparing (x : String) (value : Option Value) :
    Upholds (Sparing x value) (KeepsGlobal x) where
  refl := .refl
  trans := .trans
  head := .head
  tail h _ hkeeps := h.tail.mono hkeeps
  ifThen h := ⟨(Stmt.allSpare_singleton ..).mp h.code, h.table, h.global⟩
  whileDo h := ⟨(Stmt.allSpare_singleton ..).mp h.code, h.table, h.global⟩
  again := .mono
  body := .body
  command := Sparing.keeps_of_command
  define := Sparing.keeps_of_define
  leave h := by
    refine ⟨?_, h.table, h.global⟩
    simp only [Machine.popScope, Environment.popScope, h.scopes.tail]
    exact .refl _

/-! ## Runs -/

/-- A global variable that has a value, or none, keeps it through a run to any end, and has it at
every moment on the way, if no assignment can reach it. That is the case if every assignment to its
name, in the script or in a procedure defined before, stands in the body of a procedure with a
parameter of the name. -/
theorem run_spares_global (limits : Limits) {env : Environment} {script : Script} {x : String}
    (hscopes : env.scopes = []) (hscript : Stmt.allSpare x false script = true)
    (htable : TableSpares x env.procedures) :
    ((Interpreter.on env).run limits script).1.env.globals.lookup? (some x) =
      env.globals.lookup? (some x) ∧
    ∀ c, (Moment.ofRun limits env script).Reaches c →
      c.machine.env.globals.lookup? (some x) = env.globals.lookup? (some x) ∧
      c.outcome.machine.env.globals.lookup? (some x) = env.globals.lookup? (some x) := by
  have hshadows : (Moment.ofRun limits env script).machine.env.shadows x = false := by
    simp only [Moment.ofRun, Interpreter.started, Machine.emit, Machine.on,
      Environment.shadows, hscopes]
  have hstart : Sparing x (env.globals.lookup? (some x))
      (Moment.ofRun limits env script).task.stmts (Moment.ofRun limits env script).machine :=
    ⟨by rw [hshadows]; exact hscript, htable, rfl⟩
  have hupholds := upholds_sparing x (env.globals.lookup? (some x))
  refine ⟨?_, ?_⟩
  · rw [Interpreter.env_run]
    exact (hupholds.outcome hstart).global
  · intro c hr
    have hc := hupholds.reaches hstart hr
    exact ⟨hc.global, (hupholds.outcome hc).global.trans hc.global⟩

/-- Three assignments to a parameter, one of them in a procedure defined before the run, and none
to the global variable of the same name. -/
theorem run_spares_global_shadowed :
    let set : Stmt := .command .make [.boolean false] (some "x")
    let fresh : Environment := .fresh (.startingAt 0.0 0.0)
    let env := (fresh.define "P" ⟨["y", "x"], [set]⟩).assignGlobal (some "x") (.truth true)
    let script : Script :=
      [.define "Q" ["x"] [.ifThen (.variable "x") [set, .call "P" [.boolean true, .variable "x"]],
        set], .call "Q" [.variable "x"]]
    env.scopes = [] ∧ Stmt.allSpare "x" false script = true ∧ TableSpares "x" env.procedures ∧
      ((Interpreter.on env).run ⟨9, 99⟩ script).2 = none ∧
      ((Interpreter.on env).run ⟨9, 99⟩ script).1.env.globals.lookup? (some "x") =
        some (.truth true) := by
  intro set fresh env script
  have hcode : Stmt.allSpare "x" false script = true := by decide
  have hempty : TableSpares "x" .empty := by
    intro name p hp
    cases hp
  have htable : TableSpares "x" env.procedures := hempty.insert "P" rfl
  exact ⟨rfl, hcode, htable, rfl, (run_spares_global ⟨9, 99⟩ rfl hcode htable).1⟩

end TurtleGraphics
