import TurtleGraphics.Proofs.Hidden
import TurtleGraphics.Proofs.Linking
import TurtleGraphics.Proofs.Names
import TurtleGraphics.Proofs.RunsInTurn

/-!
# TurtleGraphics.Proofs.Hoisting

Definitions before everything else.

* `Script.hoisted`   : the definitions of a script in front of its other statements.
* `EndsAlike`        : two executions end in related ways, or neither of them ends.
* `Ahead`            : one of two machines knows procedures that the other is yet to define.
* `lockstep_ahead`   : a statement that was parsed does the same on both.
* `Linked.endsAlike` : so does the rest of a script, where only one of them has the definitions.
* `run_hoisted`      : a script runs as it does with its definitions in front.

A statement is parsed behind the definitions that it relies on, and the bodies of the procedures in
the table were, too. So whatever a statement comes to call is in the table of either machine; and if
no procedure is defined twice, it is the same procedure in both.
-/

namespace TurtleGraphics

/-- Whether a statement is a definition. -/
def Stmt.isDefinition : Stmt → Bool
  | .define _ _ _ => true
  | _ => false

namespace Script

/-- The definitions of a script in front of its other statements. -/
def hoisted (script : Script) : Script :=
  script.filter Stmt.isDefinition ++ script.filter fun s => !s.isDefinition

/-- A table of procedures behind the definitions of a script. -/
def defineAll (table : Bindings String Procedure) : Script → Bindings String Procedure
  | [] => table
  | .define name parameters body :: rest => defineAll (table.insert name ⟨parameters, body⟩) rest
  | _ :: rest => defineAll table rest

theorem lookup?_defineAll {name : String} {script : Script} (h : name ∉ script.defined)
    (table : Bindings String Procedure) :
    (script.defineAll table).lookup? name = table.lookup? name := by
  induction script generalizing table with
  | nil => rfl
  | cons s rest ih =>
    cases s with
    | define other parameters body =>
      rw [defined, List.mem_cons, not_or] at h
      rw [defineAll, ih h.2, table.lookup?_insert_of_ne h.1]
    | _ => exact ih h table

/-- What is defined already is not defined again. -/
theorem lookup?_defineAll_of_some {script : Script} {table : Bindings String Procedure}
    (hnew : ∀ name ∈ script.defined, table.lookup? name = none) {name : String} {p : Procedure}
    (hp : table.lookup? name = some p) : (script.defineAll table).lookup? name = some p := by
  have hname : name ∉ script.defined := by
    intro hmem
    rw [hnew name hmem] at hp
    cases hp
  rw [lookup?_defineAll hname, hp]

end Script

theorem Stmt.Derived.not_isDefinition {d : Declarations} {ts : List Token} {s : Stmt}
    (h : Stmt.Derived d ts s) : s.isDefinition = false := by
  cases h <;> rfl

theorem Stmt.Derived.defineAll_cons {d : Declarations} {ts : List Token} {s : Stmt}
    (h : Stmt.Derived d ts s) (table : Bindings String Procedure) (rest : Script) :
    Script.defineAll table (s :: rest) = Script.defineAll table rest := by
  cases h <;> rfl

/-- The same state with other procedures. -/
def Environment.withProcedures (env : Environment) (table : Bindings String Procedure) :
    Environment :=
  { env with procedures := table }

/-! ## Executions that end alike -/

/-- Every end of the first execution is matched by a related end of the second one. -/
def EndsAs (Related : Outcome → Outcome → Prop) (depth : Nat) (task : Task) (m : Machine)
    (task' : Task) (m' : Machine) : Prop :=
  ∀ o, Ends depth task m o → ∃ o', Ends depth task' m' o' ∧ Related o o'

/-- Two executions end in related ways, or neither of them ends. -/
structure EndsAlike (Related : Outcome → Outcome → Prop) (depth : Nat) (task : Task) (m : Machine)
    (task' : Task) (m' : Machine) : Prop where
  there : EndsAs Related depth task m task' m'
  back : EndsAs (fun o' o => Related o o') depth task' m' task m

namespace EndsAlike

variable {Related : Outcome → Outcome → Prop} {depth depth₁ : Nat} {task task' task₁ task₁' : Task}
  {m m' m₁ m₁' : Machine}

theorem of_ends {o o' : Outcome} (h : Ends depth task m o) (h' : Ends depth task' m' o')
    (hrelated : Related o o') : EndsAlike Related depth task m task' m' where
  there _ ho := ⟨o', h', ho.unique h ▸ hrelated⟩
  back _ ho' := ⟨o, h, ho'.unique h' ▸ hrelated⟩

/-- Executions that end exactly as others do end alike if those do. -/
theorem of_iff (h : EndsAlike Related depth task m task' m')
    (hleft : ∀ o, Ends depth₁ task₁ m₁ o ↔ Ends depth task m o)
    (hright : ∀ o, Ends depth₁ task₁' m₁' o ↔ Ends depth task' m' o) :
    EndsAlike Related depth₁ task₁ m₁ task₁' m₁' where
  there o ho := by
    obtain ⟨o', ho', hrelated⟩ := h.there o ((hleft o).mp ho)
    exact ⟨o', (hright o').mpr ho', hrelated⟩
  back o' ho' := by
    obtain ⟨o, ho, hrelated⟩ := h.back o' ((hright o').mp ho')
    exact ⟨o, (hleft o).mpr ho, hrelated⟩

end EndsAlike

theorem Outcome.Alike.symm {Sim : Machine → Machine → Prop} {o o' : Outcome}
    (h : Outcome.Alike Sim Eq o o') : Outcome.Alike (fun m' m => Sim m m') Eq o' o := by
  cases h with
  | done hm => exact .done hm
  | halted hwhy hm => exact .halted hwhy.symm hm

theorem Lockstep.endsAlike {View : Type} {Code : View → Stmt → Stmt → Prop}
    {Sim : View → Machine → Machine → Prop} (h : Lockstep Code Sim Eq) (i : View) {depth : Nat}
    {task task' : Task} {m m' : Machine} (htask : Task.Matched (Code i) task task')
    (hm : Sim i m m') : EndsAlike (Outcome.Alike (Sim i) Eq) depth task m task' m' := by
  have halike := fun steps => h.below steps i depth task task' m m' htask hm
  constructor
  · rintro o ⟨ho, enough, hends⟩
    have ho' := halike enough
    rw [hends enough (Nat.le_refl _)] at ho'
    exact ⟨_, .of_outcome rfl (ho'.halt?_eq ▸ ho), ho'⟩
  · rintro o' ⟨ho', enough, hends⟩
    have ho := halike enough
    rw [hends enough (Nat.le_refl _)] at ho
    exact ⟨_, .of_outcome rfl (ho.halt?_eq ▸ ho'), ho⟩

section

variable {Related : Outcome → Outcome → Prop} {Sim : Machine → Machine → Prop} {depth : Nat}
  {s : Stmt} {rest rest' ss ss' : List Stmt} {m m' : Machine}

theorem EndsAs.cons
    (hs : EndsAs (Outcome.Alike Sim Eq) depth (.stmt s) m (.stmt s) m')
    (hhalted : ∀ why m₁ m₁', Sim m₁ m₁' → Related (.halted why m₁) (.halted why m₁'))
    (hrest : ∀ m₁ m₁', Sim m₁ m₁' → EndsAs Related depth (.all rest) m₁ (.all rest') m₁') :
    EndsAs Related depth (.all (s :: rest)) m (.all (s :: rest')) m' := by
  intro o ho
  obtain ⟨why, m₁, rfl, hfirst⟩ | ⟨m₁, hfirst, hnext⟩ := ho.first_or_next
  · obtain ⟨_, hfirst', halike⟩ := hs _ hfirst
    cases halike with
    | halted hwhy hm =>
      subst hwhy
      exact ⟨_, hfirst'.first, hhalted _ _ _ hm⟩
  · obtain ⟨_, hfirst', halike⟩ := hs _ hfirst
    cases halike with
    | done hm =>
      obtain ⟨o', ho', hrelated⟩ := hrest _ _ hm o hnext
      exact ⟨o', hfirst'.next ho', hrelated⟩

/-- Statements end alike if the first of each do and the others do behind these. -/
theorem EndsAlike.cons
    (hs : EndsAlike (Outcome.Alike Sim Eq) depth (.stmt s) m (.stmt s) m')
    (hhalted : ∀ why m₁ m₁', Sim m₁ m₁' → Related (.halted why m₁) (.halted why m₁'))
    (hrest : ∀ m₁ m₁', Sim m₁ m₁' → EndsAlike Related depth (.all rest) m₁ (.all rest') m₁') :
    EndsAlike Related depth (.all (s :: rest)) m (.all (s :: rest')) m' where
  there := hs.there.cons hhalted fun _ _ hm => (hrest _ _ hm).there
  back := by
    have hback : EndsAs (Outcome.Alike (fun m' m => Sim m m') Eq) depth (.stmt s) m' (.stmt s) m :=
      fun o' ho' => (hs.back o' ho').imp fun _ ⟨ho, halike⟩ => ⟨ho, halike.symm⟩
    exact hback.cons (fun why _ _ hm => hhalted why _ _ hm) fun _ _ hm => (hrest _ _ hm).back

theorem EndsAlike.block (depth : Nat)
    (htooDeep : Related (.halted .tooDeep m) (.halted .tooDeep m'))
    (h : ∀ depth, EndsAlike Related depth (.all ss) m (.all ss') m') :
    EndsAlike Related depth (.block ss) m (.block ss') m' := by
  cases depth with
  | zero => exact .of_ends .tooDeep .tooDeep htooDeep
  | succ depth => exact (h depth).of_iff (fun _ => ⟨.leave, .enter⟩) fun _ => ⟨.leave, .enter⟩

end

/-! ## Definitions -/

theorem Ends.define_iff {depth : Nat} {name : String} {parameters : List String}
    {body rest : List Stmt} {m : Machine} {o : Outcome} :
    Ends depth (.all (.define name parameters body :: rest)) m o ↔
      Ends depth (.all rest) (m.define name ⟨parameters, body⟩) o := by
  have hfirst : Ends depth (.stmt (.define name parameters body)) m
      (.done (m.define name ⟨parameters, body⟩)) :=
    .of_succ (Outcome.halt?_done_ne _ _) 0 fun _ _ => rfl
  constructor
  · intro h
    obtain ⟨why, m₁, -, hs⟩ | ⟨m₁, hs, hrest⟩ := h.first_or_next
    · cases hs.unique hfirst
    · cases hs.unique hfirst
      exact hrest
  · exact hfirst.next

/-- Definitions in front of statements only change the table in which these are executed. -/
theorem Ends.definitions_iff (script : Script) (m : Machine) :
    ∃ m', m'.env = m.env.withProcedures (script.defineAll m.env.procedures) ∧
      m'.primitives = m.primitives ∧
      ∀ depth ss o, Ends depth (.all (script.filter Stmt.isDefinition ++ ss)) m o ↔
        Ends depth (.all ss) m' o := by
  induction script generalizing m with
  | nil => exact ⟨m, rfl, rfl, fun _ _ _ => .rfl⟩
  | cons s rest ih =>
    cases s with
    | define name parameters body =>
      obtain ⟨m', henv, hprimitives, hends⟩ := ih (m.define name ⟨parameters, body⟩)
      exact ⟨m', henv, hprimitives, fun depth ss o => Ends.define_iff.trans (hends depth ss o)⟩
    | _ => exact ih m

/-! ## Procedures that are defined already -/

/-- The first machine has the one table of procedures and the second the other one, and they are the
same besides. -/
structure Ahead (early late : Bindings String Procedure) (m m' : Machine) : Prop where
  early : m.env.procedures = early
  env : m'.env = m.env.withProcedures late
  primitives : m'.primitives = m.primitives

section

variable {early late : Bindings String Procedure} {m m' : Machine}

theorem Ahead.lookup? (h : Ahead early late m m') (name : Option String) :
    m'.env.lookup? name = m.env.lookup? name := by
  rw [h.env]
  cases name <;> rfl

theorem Ahead.turtle (h : Ahead early late m m') : m'.env.turtle = m.env.turtle := by
  rw [h.env]
  rfl

theorem assign_withProcedures (env : Environment) (name : Option String) (v : Value) :
    (env.withProcedures late).assign name v = (env.assign name v).withProcedures late := by
  cases name with
  | none => rfl
  | some n =>
    simp only [Environment.assign, Environment.withProcedures]
    split
    · split <;> rfl
    · rfl

theorem Ahead.after (h : Ahead early late m m') {env env' : Environment}
    (henv : env' = env.withProcedures late) (hearly : env.procedures = early)
    (drawn : Option Primitive) : Ahead early late (m.after env drawn) (m'.after env' drawn) where
  early := by rw [Machine.after_env, hearly]
  env := by rw [Machine.after_env, Machine.after_env, henv]
  primitives := by cases drawn <;> simp only [Machine.after, h.primitives]

theorem Ahead.command (h : Ahead early late m m') (v : Verb) (operands : List Expr)
    (target : Option String) :
    Agreed Eq (fun r r' => Ahead early late (m.after r.1 r.2) (m'.after r'.1 r'.2))
      (perform m.env v operands target) (perform m'.env v operands target) := by
  have hvalue : operandValue m'.env operands = operandValue m.env operands :=
    operandValue_of_queries h.lookup? fun q _ => by rw [h.turtle]
  refine (perform_same h.turtle hvalue v (h.lookup? target) fun _ => rfl).agreed (fun _ => rfl)
    ?_ ?_
  · intro t drawn
    have hsteered : { m'.env with turtle := t } =
        { m.env with turtle := t }.withProcedures late := by
      rw [h.env]
      rfl
    exact h.after hsteered h.early drawn
  · intro value
    have hassigned : m'.env.assign target value =
        (m.env.assign target value).withProcedures late := by
      rw [h.env, assign_withProcedures]
    exact h.after hassigned (by rw [Environment.procedures_assign, h.early]) none

theorem Ahead.eval (h : Ahead early late m m') (e : Expr) :
    Agreed (SameFault Eq) SameDecision (e.eval m.env) (e.eval m'.env) := by
  refine .of_eq ?_ ?_ (Expr.eval_of_queries h.lookup? fun q _ => by rw [h.turtle])
  · exact fun _ => rfl
  · exact fun _ => rfl

theorem Ahead.push (h : Ahead early late m m') (scope : Scope) :
    Ahead early late (m.pushScope scope) (m'.pushScope scope) where
  early := h.early
  env := congrArg (Environment.pushScope · scope) h.env
  primitives := h.primitives

theorem Ahead.pop (h : Ahead early late m m') : Ahead early late m.popScope m'.popScope where
  early := h.early
  env := congrArg Environment.popScope h.env
  primitives := h.primitives

/-- A procedure that is in both tables is entered in the same way. -/
theorem Ahead.enterCall_eq (h : Ahead early late m m') {name : String} {p : Procedure}
    (hearly : early.lookup? name = some p) (hlate : late.lookup? name = some p)
    (arguments : List Expr) :
    enterCall m'.env name arguments = enterCall m.env name arguments := by
  have hp : m.env.procedures.lookup? name = some p := by rw [h.early, hearly]
  have hp' : m'.env.procedures.lookup? name = some p := by rw [h.env]; exact hlate
  have hvalues : Expr.evalAll m'.env arguments = Expr.evalAll m.env arguments :=
    Expr.evalAll_of_queries h.lookup? fun q _ => by rw [h.turtle]
  simp only [enterCall, hp, hp', hvalues]

end

/-- A statement with itself, if it was parsed where only linked procedures had been declared. -/
def Stmt.Fits (script : Script) (table : Bindings String Procedure) (s s' : Stmt) : Prop :=
  s' = s ∧ ∃ d ts, Stmt.Derived d ts s ∧ d.Linked script table

theorem Stmt.AllDerived.fits {script : Script} {table : Bindings String Procedure}
    {d : Declarations} {ts : List Token} {ss : List Stmt} (h : Stmt.AllDerived d ts ss)
    (hd : d.Linked script table) : List.Forall₂ (Stmt.Fits script table) ss ss := by
  induction ss generalizing ts with
  | nil => exact .nil
  | cons s rest ih =>
    cases h with
    | cons hs hrest => exact .cons ⟨rfl, d, _, hs, hd⟩ (ih hrest)

/-- A statement that was parsed does the same where more procedures are defined. -/
theorem lockstep_ahead {script : Script} {early late : Bindings String Procedure}
    (htable : TableLinked script early)
    (hmore : ∀ name p, early.lookup? name = some p → late.lookup? name = some p) :
    Lockstep (fun _ : Unit => Stmt.Fits script early) (fun _ => Ahead early late) Eq where
  tooDeep := rfl
  outOfSteps := rfl
  named := by
    rintro _ s _ why _ ⟨rfl, -⟩ rfl
    rfl
  step := by
    rintro _ s _ m m' ⟨rfl, d, ts, hs, hd⟩ hm
    cases hs with
    | command _ _ _ _ => exact .command (hm.command _ _ _)
    | assignment _ _ _ => exact .command (hm.command _ _ _)
    | ifThen _ _ _ hb _ => exact .ifThen (hm.eval _) (hb.fits hd)
    | whileDo _ _ _ hb _ => exact .whileDo (hm.eval _) (hb.fits hd)
    | @call name _ arguments _ harity _ =>
      -- The call was parsed behind a definition, so the early table has a procedure for it.
      obtain ⟨-, p, hp⟩ := hd name _ harity
      obtain ⟨-, d', ts', hbody, hd'⟩ := htable name p hp
      have hsame := hm.enterCall_eq hp (hmore name p hp) arguments
      refine .call ?_
      rw [hsame]
      cases hcall : enterCall m.env name arguments with
      | error f => exact .error rfl
      | ok call =>
        obtain ⟨scope, body⟩ := call
        obtain ⟨q, _, hq, -, -, -, rfl⟩ := enterCall_cases hcall
        rw [hm.early, hp] at hq
        cases hq
        exact .ok ⟨(), hbody.fits hd', hm.push scope, fun _ _ h => h.pop⟩

/-! ## Scripts -/

/-- Two outcomes of the same kind that differ in the procedures at most, and not in them if the
executions have been completed. -/
inductive Outcome.SameButProcedures : Outcome → Outcome → Prop where
  | done {m m' : Machine} : m'.env = m.env → m'.primitives = m.primitives →
      SameButProcedures (.done m) (.done m')
  | halted {why : Halt} {m m' : Machine} {table : Bindings String Procedure} :
      m'.env = m.env.withProcedures table → m'.primitives = m.primitives →
      SameButProcedures (.halted why m) (.halted why m')

theorem Linked.behind {script : Script} {s : Stmt} {rest : List Stmt} {m m₁ : Machine}
    (h : Linked script (s :: rest) m) (hs : s.isDefinition = false)
    (hprocedures : m₁.env.procedures = m.env.procedures) : Linked script rest m₁ := by
  obtain ⟨⟨d, ts, hd, hl⟩, hdefines, htable⟩ := h.mono (.of_procedures hprocedures)
  cases hd with
  | statement _ hrest =>
    exact ⟨⟨d, _, hrest, hl⟩, fun name parameters body hmem =>
      hdefines name parameters body (List.mem_cons_of_mem _ hmem), htable⟩
  | definition _ _ _ _ _ _ _ => cases hs

/-- What is left of a script ends as its statements do where its definitions have been executed. -/
theorem Linked.endsAlike {script : Script} {ss : List Stmt} {m m' : Machine}
    (h : Linked script ss m) (honce : (Script.defined ss).Nodup)
    (hnew : ∀ name ∈ Script.defined ss, m.env.procedures.lookup? name = none)
    (hm : Ahead m.env.procedures (Script.defineAll m.env.procedures ss) m m') (depth : Nat) :
    EndsAlike Outcome.SameButProcedures depth (.all ss) m
      (.all (ss.filter fun s => !s.isDefinition)) m' := by
  induction ss generalizing m m' with
  | nil => exact .of_ends .nil .nil (.done hm.env hm.primitives)
  | cons s rest ih =>
    obtain ⟨d, ts, hd, hl⟩ := h.derived
    cases hd with
    | statement hs _ =>
      rw [Script.defined_cons_of_derived hs] at honce hnew
      rw [hs.defineAll_cons] at hm
      have hkept : (s :: rest).filter (fun s => !s.isDefinition) =
          s :: rest.filter fun s => !s.isDefinition :=
        List.filter_cons_of_pos (by simp [hs.not_isDefinition])
      rw [hkept]
      have hlockstep := lockstep_ahead h.table fun _ _ => Script.lookup?_defineAll_of_some hnew
      refine .cons (hlockstep.endsAlike () (.stmt ⟨rfl, d, _, hs, hl⟩) hm) ?_ ?_
      · intro why m₁ m₁' hm₁
        exact .halted hm₁.env hm₁.primitives
      · intro m₁ m₁' hm₁
        have hrest := h.behind hs.not_isDefinition hm₁.early
        rw [← hm₁.early] at hnew
        exact ih hrest honce hnew ⟨rfl, hm₁.early ▸ hm₁.env, hm₁.primitives⟩
    | @definition _ _ _ name ps _ _ body _ _ _ _ _ _ _ hrest =>
      rw [Script.defined, List.nodup_cons] at honce
      rw [Script.defined, List.forall_mem_cons] at hnew
      have hdone : execute 1 0 (.define name (ps.map Token.text) body) m =
          .done (m.define name ⟨ps.map Token.text, body⟩) := rfl
      -- Only the first machine takes this step; what it defines is in the table of the second.
      have hnext := ih (h.tail hdone h.head.define) honce.2 ?_ ⟨rfl, hm.env, hm.primitives⟩
      · exact hnext.of_iff (fun _ => Ends.define_iff) fun _ => .rfl
      · intro other hother
        have hne : other ≠ name := fun heq => honce.1 (heq ▸ hother)
        exact (m.env.procedures.lookup?_insert_of_ne hne _).trans (hnew.2 other hother)

/-- A script that was parsed ends as it does with its definitions in front, where no procedure is
defined yet. -/
theorem Linked.endsAlike_hoisted {script : Script} {m : Machine} (h : Linked script script m)
    (honce : script.defined.Nodup) (hempty : m.env.procedures = .empty) (depth : Nat) :
    EndsAlike Outcome.SameButProcedures depth (.all script) m (.all script.hoisted) m := by
  obtain ⟨m', henv, hprimitives, hends⟩ := Ends.definitions_iff script m
  have hnew : ∀ name ∈ script.defined, m.env.procedures.lookup? name = none := by
    intro name _
    rw [hempty]
    rfl
  have halike := h.endsAlike honce hnew ⟨rfl, henv, hprimitives⟩ depth
  exact halike.of_iff (fun _ => .rfl) (hends depth _)

/-! ## Runs -/

/-- Two interpreters that have come to the same by runs that were ended in this way. They know the
same procedures if nothing has ended the runs early. -/
structure Interpreter.SameResult (i : Interpreter) (stop : Option Halt) (i' : Interpreter) :
    Prop where
  primitives : i'.primitives = i.primitives
  turtle : i'.env.turtle = i.env.turtle
  globals : i'.env.globals = i.env.globals
  scopes : i'.env.scopes = i.env.scopes
  procedures : stop = none → i'.env.procedures = i.env.procedures

theorem Outcome.SameButProcedures.result {o o' : Outcome} (h : o.SameButProcedures o') :
    (Interpreter.ofOutcome o').2 = (Interpreter.ofOutcome o).2 ∧
      (Interpreter.ofOutcome o).1.SameResult (Interpreter.ofOutcome o).2
        (Interpreter.ofOutcome o').1 := by
  cases h with
  | done henv hprimitives =>
    have hturtle := congrArg Environment.turtle henv
    have hglobals := congrArg Environment.globals henv
    have hscopes := congrArg Environment.scopes henv
    have hprocedures := congrArg Environment.procedures henv
    exact ⟨rfl, congrArg Array.toList hprimitives, hturtle, hglobals, hscopes,
      fun _ => hprocedures⟩
  | halted henv hprimitives =>
    have hturtle := congrArg Environment.turtle henv
    have hglobals := congrArg Environment.globals henv
    have hscopes := congrArg Environment.scopes henv
    exact ⟨rfl, congrArg Array.toList hprimitives, hturtle, hglobals, hscopes,
      fun hnone => by cases hnone⟩

/-- If no procedure is defined twice, then a script that was parsed and the same script with its
definitions in front, run in the same environment with no procedures, both finish or neither does,
as far as blocks and calls may be nested. They finish in the same way, with the same error and
context if with any, and with the same primitives, turtle and variables; and if nothing ends them
early, with the same procedures. -/
theorem run_hoisted {limit : Nat} {tokens : List Token} {script : Script}
    (h : (parse limit tokens).1 = .ok script) (honce : script.defined.Nodup) {env : Environment}
    (henv : env.procedures = .empty) (depth : Nat) (stop : Option Halt) :
    (∀ i, Interpreter.Finishes env depth script i stop →
      ∃ i', Interpreter.Finishes env depth script.hoisted i' stop ∧ i.SameResult stop i') ∧
    ∀ i', Interpreter.Finishes env depth script.hoisted i' stop →
      ∃ i, Interpreter.Finishes env depth script i stop ∧ i.SameResult stop i' := by
  have hlinked : Linked script script (Interpreter.started (.on env)) :=
    linked_started (derived_of_parse h).1 henv ⟨depth, 0⟩
  have htooDeep : Outcome.SameButProcedures (.halted .tooDeep (Interpreter.started (.on env)))
      (.halted .tooDeep (Interpreter.started (.on env))) := .halted rfl rfl
  have halike := EndsAlike.block depth htooDeep (hlinked.endsAlike_hoisted honce henv)
  constructor
  · intro i hi
    obtain ⟨o, ho, hout⟩ := Interpreter.finishes_iff.mp hi
    obtain ⟨o', ho', hsame⟩ := halike.there o ho
    obtain ⟨hstop, hresult⟩ := hsame.result
    rw [hout] at hstop hresult
    exact ⟨_, Interpreter.finishes_iff.mpr ⟨o', ho', Prod.ext rfl hstop⟩, hresult⟩
  · intro i' hi'
    obtain ⟨o', ho', hout⟩ := Interpreter.finishes_iff.mp hi'
    obtain ⟨o, ho, hsame⟩ := halike.back o' ho'
    obtain ⟨hstop, hresult⟩ := hsame.result
    rw [← hstop, hout] at hresult
    rw [hout] at hstop
    exact ⟨_, Interpreter.finishes_iff.mpr ⟨o, ho, Prod.ext rfl hstop.symm⟩, hresult⟩

/-- `Q` is defined behind a call of `P` and calls it, too; the last statement fails. -/
theorem run_hoisted_failing :
    let p : Stmt := .define "P" ["a"] [.command .make [.variable "a"] (some "x")]
    let q : Stmt := .define "Q" [] [.call "P" [.negation (.variable "x")]]
    let last : Stmt := .command .turn [.variable "y"] none
    let stop : Halt := .error ⟨.undefinedVariable (some "y"), some "TURN :y"⟩
    ∃ i', Interpreter.Finishes (.fresh (.startingAt 0.0 0.0)) 9
        [p, q, .call "P" [.boolean true], .call "Q" [], last] i' (some stop) ∧
      i'.env.globals.lookup? (some "x") = some (.truth false) := by
  intro p q last stop
  let script : Script := [p, .call "P" [.boolean true], q, .call "Q" [], last]
  have hparse : (parse 9 [.ofWord "TO", .ofWord "P", .ofQuoted "a", .ofWord "MAKE", .ofQuoted "x",
      ⟨.variable, "a"⟩, .ofWord "END", .ofWord "P", .ofQuoted "TRUE", .ofWord "TO", .ofWord "Q",
      .ofWord "P", .ofWord "NOT", ⟨.variable, "x"⟩, .ofWord "END", .ofWord "Q", .ofWord "TURN",
      ⟨.variable, "y"⟩]).1 = .ok script := by
    with_unfolding_all rfl
  have hfresh : (Environment.fresh (.startingAt 0.0 0.0)).procedures = .empty := rfl
  let here := (Interpreter.on (.fresh (.startingAt 0.0 0.0))).run ⟨9, 99⟩ script
  have hrun : here = (here.1, some stop) := rfl
  obtain ⟨i', hi', hsame⟩ := (run_hoisted hparse (by decide) hfresh 9 (some stop)).1 _
    (Interpreter.finishes_of_run hrun (by simp [stop]))
  exact ⟨i', hi', by rw [hsame.globals]; rfl⟩

end TurtleGraphics
