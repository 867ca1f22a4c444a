import TurtleGraphics.Proofs.Moments
import TurtleGraphics.Proofs.ScriptText

/-!
# TurtleGraphics.Proofs.Linking

Every call of a parsed script finds its procedure.

The parser counts arguments by the declarations before a call in the text; a run looks procedures up
in a table that is filled as definitions are executed. They agree on the names but not on the
numbers, because a procedure may be defined anew between the two.

* `Declarations.Linked` : what was declared is in the table by now.
* `TableLinked`         : the bodies in the table were derived from linked declarations.
* `Linked`              : statements about to be executed were, too.
* `upholds_linked`      : no step of a run breaks this.
* `run_linked`          : so no call fails for want of a procedure.
-/

namespace TurtleGraphics

/-- The script defines a procedure of this name with so many parameters. -/
def Script.Defines (script : Script) (name : String) (n : Nat) : Prop :=
  ∃ parameters body, .define name parameters body ∈ script ∧ parameters.length = n

/-! ## The invariant -/

/-- Every declaration is the script's, and a procedure of its name is in the table. -/
def Declarations.Linked (script : Script) (table : Bindings String Procedure)
    (d : Declarations) : Prop :=
  ∀ name n, d.arity? name = some n → script.Defines name n ∧ ∃ p, table.lookup? name = some p

/-- Every procedure in the table is the script's, and the calls in its body are linked. -/
def TableLinked (script : Script) (table : Bindings String Procedure) : Prop :=
  ∀ name p, table.lookup? name = some p → script.Defines name p.parameters.length ∧
    ∃ d ts, Stmt.AllDerived d ts p.body ∧ d.Linked script table

/-- Statements that are ready to be executed. -/
structure Linked (script : Script) (ss : List Stmt) (m : Machine) : Prop where
  derived : ∃ d ts, Script.Derived d ts ss ∧ d.Linked script m.env.procedures
  defines : ∀ name parameters body, .define name parameters body ∈ ss →
    script.Defines name parameters.length
  table : TableLinked script m.env.procedures

/-- No procedure is lost, and the table stays linked. -/
structure KeepsLinks (script : Script) (m m' : Machine) : Prop where
  found : ∀ name p, m.env.procedures.lookup? name = some p →
    ∃ q, m'.env.procedures.lookup? name = some q
  table : TableLinked script m.env.procedures → TableLinked script m'.env.procedures

namespace Declarations.Linked

variable {script : Script} {table : Bindings String Procedure} {d : Declarations}

theorem nil : Declarations.Linked script table [] := by
  intro name n h
  cases h

theorem cons (h : d.Linked script table) {name : String} {n : Nat}
    (hdef : script.Defines name n) (hfound : ∃ p, table.lookup? name = some p) :
    Declarations.Linked script table ((name, n) :: d) := by
  intro other k hk
  simp only [Declarations.arity?, List.lookup_cons] at hk
  split at hk
  · rename_i heq
    cases hk
    rw [beq_iff_eq.mp heq]
    exact ⟨hdef, hfound⟩
  · exact h other k hk

theorem mono (h : d.Linked script table) {table' : Bindings String Procedure}
    (hmore : ∀ name p, table.lookup? name = some p → ∃ q, table'.lookup? name = some q) :
    d.Linked script table' := by
  intro name n hn
  obtain ⟨hdef, p, hp⟩ := h name n hn
  exact ⟨hdef, hmore name p hp⟩

end Declarations.Linked

theorem Bindings.lookup?_insert_of_some {table : Bindings String Procedure} {other : String}
    {q : Procedure} (h : table.lookup? other = some q) (name : String) (p : Procedure) :
    ∃ r, (table.insert name p).lookup? other = some r := by
  by_cases hn : other = name
  · subst hn
    exact ⟨p, table.lookup?_insert_self other p⟩
  · exact ⟨q, by rw [table.lookup?_insert_of_ne hn p, h]⟩

theorem TableLinked.insert {script : Script} {table : Bindings String Procedure} {name : String}
    {p : Procedure} {d : Declarations} {ts : List Token} (h : TableLinked script table)
    (hdef : script.Defines name p.parameters.length) (hbody : Stmt.AllDerived d ts p.body)
    (hd : d.Linked script (table.insert name p)) : TableLinked script (table.insert name p) := by
  intro other q hq
  by_cases hn : other = name
  · subst hn
    rw [table.lookup?_insert_self] at hq
    cases hq
    exact ⟨hdef, d, ts, hbody, hd⟩
  · rw [table.lookup?_insert_of_ne hn] at hq
    obtain ⟨hdef', d', ts', hbody', hd'⟩ := h other q hq
    exact ⟨hdef', d', ts', hbody', hd'.mono fun _ _ hr => Bindings.lookup?_insert_of_some hr name p⟩

namespace KeepsLinks

variable {script : Script}

theorem of_procedures {m m' : Machine} (h : m'.env.procedures = m.env.procedures) :
    KeepsLinks script m m' := by
  constructor
  · intro name p hp
    exact ⟨p, by rw [h, hp]⟩
  · rw [h]
    exact id

theorem trans {m m₁ m₂ : Machine} (h₁ : KeepsLinks script m m₁) (h₂ : KeepsLinks script m₁ m₂) :
    KeepsLinks script m m₂ := by
  constructor
  · intro name p hp
    obtain ⟨q, hq⟩ := h₁.found name p hp
    exact h₂.found name q hq
  · intro h
    exact h₂.table (h₁.table h)

end KeepsLinks

/-! ## Blocks and bodies -/

theorem Stmt.AllDerived.script {d : Declarations} {ts : List Token} {ss : List Stmt}
    (h : Stmt.AllDerived d ts ss) : Script.Derived d ts ss := by
  induction ss generalizing ts with
  | nil =>
    cases h
    exact .nil
  | cons s rest ih =>
    cases h with
    | cons hs hrest => exact .statement hs (ih hrest)

theorem Stmt.AllDerived.not_define {d : Declarations} {ts : List Token} {ss : List Stmt}
    {name : String} {parameters : List String} {body : List Stmt}
    (h : Stmt.AllDerived d ts ss) : .define name parameters body ∉ ss := by
  induction ss generalizing ts with
  | nil => exact List.not_mem_nil
  | cons s rest ih =>
    intro hmem
    cases h with
    | cons hs hrest =>
      rcases List.mem_cons.mp hmem with rfl | hmem
      · cases hs
      · exact ih hrest hmem

namespace Linked

variable {script : Script} {m : Machine}

theorem of_block {d : Declarations} {ts : List Token} {block : List Stmt}
    (hb : Stmt.AllDerived d ts block) (hd : d.Linked script m.env.procedures)
    (ht : TableLinked script m.env.procedures) : Linked script block m where
  derived := ⟨d, ts, hb.script, hd⟩
  defines _ _ _ h := absurd h hb.not_define
  table := ht

theorem ifThen {e : Expr} {block : List Stmt} (h : Linked script [.ifThen e block] m) :
    Linked script block m := by
  obtain ⟨d, ts, hs, hd⟩ := h.derived
  cases hs with
  | statement hs _ =>
    cases hs with
    | ifThen _ _ _ hb _ => exact of_block hb hd h.table

theorem whileDo {e : Expr} {block : List Stmt} (h : Linked script [.whileDo e block] m) :
    Linked script block m := by
  obtain ⟨d, ts, hs, hd⟩ := h.derived
  cases hs with
  | statement hs _ =>
    cases hs with
    | whileDo _ _ _ hb _ => exact of_block hb hd h.table

/-- A call about to be executed finds a procedure. The script defines the name with the number of
arguments and with the number of parameters. -/
theorem call {name : String} {arguments : List Expr}
    (h : Linked script [.call name arguments] m) :
    ∃ p, m.env.procedures.lookup? name = some p ∧ script.Defines name p.parameters.length ∧
      script.Defines name arguments.length := by
  obtain ⟨d, ts, hs, hd⟩ := h.derived
  cases hs with
  | statement hs _ =>
    cases hs with
    | call _ harity _ =>
      obtain ⟨hdef, p, hp⟩ := hd name _ harity
      exact ⟨p, hp, (h.table name p hp).1, hdef⟩

theorem body {name : String} {arguments : List Expr} {scope : Scope} {body : List Stmt}
    (h : Linked script [.call name arguments] m)
    (hc : enterCall m.env name arguments = .ok (scope, body)) :
    Linked script body (m.pushScope scope) := by
  obtain ⟨p, _, hp, -, -, -, rfl⟩ := enterCall_cases hc
  obtain ⟨-, d, ts, hb, hd⟩ := h.table name p hp
  exact of_block hb hd h.table

theorem head {s : Stmt} {rest : List Stmt} (h : Linked script (s :: rest) m) :
    Linked script [s] m where
  derived := by
    obtain ⟨d, ts, hs, hd⟩ := h.derived
    cases hs with
    | statement hs _ => exact ⟨d, _, .statement hs .nil, hd⟩
    | definition hstart hname hall hnodup hb hstop _ =>
      exact ⟨d, _, .definition hstart hname hall hnodup hb hstop .nil, hd⟩
  defines name parameters body hmem := by
    rw [List.mem_singleton] at hmem
    exact h.defines name parameters body (hmem ▸ List.mem_cons_self)
  table := h.table

theorem mono {ss : List Stmt} {m' : Machine} (h : Linked script ss m)
    (hkeeps : KeepsLinks script m m') : Linked script ss m' := by
  obtain ⟨d, ts, hs, hd⟩ := h.derived
  exact ⟨⟨d, ts, hs, hd.mono hkeeps.found⟩, h.defines, hkeeps.table h.table⟩

theorem define {name : String} {parameters : List String} {body : List Stmt}
    (h : Linked script [.define name parameters body] m) :
    KeepsLinks script m (m.define name ⟨parameters, body⟩) := by
  have hmore := fun (other : String) (p : Procedure)
    (hp : m.env.procedures.lookup? other = some p) =>
      Bindings.lookup?_insert_of_some hp name ⟨parameters, body⟩
  refine ⟨hmore, fun ht => ?_⟩
  have hdef := h.defines name parameters body List.mem_cons_self
  obtain ⟨d, ts, hs, hd⟩ := h.derived
  cases hs with
  | statement hs _ => cases hs
  | definition _ _ _ _ hb _ _ =>
    refine ht.insert hdef hb ((hd.mono hmore).cons ?_ ⟨_, Bindings.lookup?_insert_self _ _ _⟩)
    rwa [List.length_map] at hdef

theorem tail {s : Stmt} {rest : List Stmt} {steps depth : Nat} {m₁ : Machine}
    (h : Linked script (s :: rest) m) (hs : execute steps depth s m = .done m₁)
    (hkeeps : KeepsLinks script m m₁) : Linked script rest m₁ where
  derived := by
    obtain ⟨d, ts, hd, hl⟩ := (h.mono hkeeps).derived
    -- Only a definition adds a declaration, and what it declares is what it has put in the table.
    cases hd with
    | statement _ hrest => exact ⟨d, _, hrest, hl⟩
    | @definition _ _ _ name ps _ _ body _ _ _ _ _ _ _ hrest =>
      have hdef := h.defines name (ps.map Token.text) body List.mem_cons_self
      rw [List.length_map] at hdef
      cases steps with
      | zero => cases hs
      | succ steps =>
        cases hs
        exact ⟨_, _, hrest, hl.cons hdef ⟨_, Bindings.lookup?_insert_self _ _ _⟩⟩
  defines name parameters body hmem :=
    h.defines name parameters body (List.mem_cons_of_mem _ hmem)
  table := hkeeps.table h.table

end Linked

theorem upholds_linked (script : Script) : Upholds (Linked script) (KeepsLinks script) where
  refl _ := .of_procedures rfl
  trans := .trans
  head := .head
  tail := .tail
  ifThen := .ifThen
  whileDo := .whileDo
  again := .mono
  body := .body
  command _ hp := .of_procedures (by rw [Machine.after_env, perform_procedures hp])
  define := Linked.define
  leave h := ⟨h.found, h.table⟩

/-! ## Faults of calls -/

/-- Whether a fault says that a call does not fit the procedures. -/
def Fault.isLinking : Fault → Bool
  | .undefinedProcedure _ => true
  | .argumentCount _ _ _ => true
  | _ => false

theorem Fault.OfExpr.not_isLinking {f : Fault} (h : f.OfExpr) : f.isLinking = false := by
  cases h <;> rfl

theorem Fault.OfCommand.not_isLinking {f : Fault} (h : f.OfCommand) : f.isLinking = false := by
  cases h with
  | ofExpr h => exact h.not_isLinking
  | _ => rfl

theorem enterCall_linking {env : Environment} {name : String} {arguments : List Expr} {f : Fault}
    (h : enterCall env name arguments = .error f) (hf : f.isLinking = true) :
    env.procedures.lookup? name = none ∧ f = .undefinedProcedure name ∨
      ∃ p, env.procedures.lookup? name = some p ∧ arguments.length ≠ p.parameters.length ∧
        f = .argumentCount name p.parameters.length arguments.length := by
  unfold enterCall at h
  split at h
  · rename_i hnone
    cases h
    exact .inl ⟨hnone, rfl⟩
  · rename_i p hp
    split at h
    · split at h
      · rename_i hvs
        cases h
        rw [(Expr.ofExpr_of_evalAll hvs).not_isLinking] at hf
        cases hf
      · cases h
    · rename_i hlength
      cases h
      exact .inr ⟨p, hp, hlength, rfl⟩

theorem Moment.Fails.call_of_isLinking {c : Moment} {f : Fault} {context : Option String}
    (h : c.Fails (.error ⟨f, context⟩)) (hf : f.isLinking = true) :
    ∃ name arguments, c.task = .stmt (.call name arguments) ∧
      enterCall c.machine.env name arguments = .error f := by
  cases h with
  | command hp =>
    rw [(ofCommand_of_perform hp).not_isLinking] at hf
    cases hf
  | ifThen he =>
    rw [(Expr.ofExpr_of_eval he).not_isLinking] at hf
    cases hf
  | loop he =>
    rw [(Expr.ofExpr_of_eval he).not_isLinking] at hf
    cases hf
  | call hc => exact ⟨_, _, rfl, hc⟩
  | foreign => cases hf

/-! ## Runs -/

theorem linked_started {ts : List Token} {script : Script} (h : Script.Derived [] ts script)
    {env : Environment} (henv : env.procedures = .empty) (limits : Limits) :
    Linked script (Moment.ofRun limits env script).task.stmts
      (Moment.ofRun limits env script).machine where
  derived := ⟨[], ts, h, .nil⟩
  defines _ parameters body hmem := ⟨parameters, body, hmem, rfl⟩
  table name p hp := by
    change env.procedures.lookup? name = some p at hp
    rw [henv] at hp
    cases hp

theorem linked_of_derived {ts : List Token} {script : Script} (h : Script.Derived [] ts script)
    (limits : Limits) (turtle : Turtle) :
    Linked script (Moment.ofRun limits (.fresh turtle) script).task.stmts
      (Moment.ofRun limits (.fresh turtle) script).machine :=
  linked_started h rfl limits

theorem Linked.call_of_reaches {script : Script} {c c' : Moment} {name : String}
    {arguments : List Expr} (h : Linked script c.task.stmts c.machine) (hr : c.Reaches c')
    (htask : c'.task = .stmt (.call name arguments)) :
    ∃ p, c'.machine.env.procedures.lookup? name = some p ∧
      script.Defines name p.parameters.length ∧ script.Defines name arguments.length := by
  have hc := (upholds_linked script).reaches h hr
  rw [htask] at hc
  exact hc.call

/-- A call ends a run only by a wrong number of arguments, and only if the script defines the
procedure with that number and with another one. -/
theorem Linked.mismatch_of_halted {script : Script} {c : Moment} {f : Fault}
    {context : Option String} {m : Machine} (h : Linked script c.task.stmts c.machine)
    (ho : c.outcome = .halted (.error ⟨f, context⟩) m) (hf : f.isLinking = true) :
    ∃ name expected given, f = .argumentCount name expected given ∧ expected ≠ given ∧
      script.Defines name expected ∧ script.Defines name given := by
  obtain ⟨c', _, hr, hfails⟩ := Moment.raised_of_halted ho
  obtain ⟨name, arguments, htask, hcall⟩ := hfails.call_of_isLinking hf
  obtain ⟨p, hp, hparameters, harguments⟩ := h.call_of_reaches hr htask
  obtain ⟨hnone, -⟩ | ⟨q, hq, hlength, rfl⟩ := enterCall_linking hcall hf
  · rw [hp] at hnone
    cases hnone
  · rw [hp] at hq
    cases hq
    exact ⟨name, _, _, rfl, hlength.symm, hparameters, harguments⟩

/-- When a script that was parsed is run from scratch, every call finds a procedure. If it has
another number of parameters than the call has arguments, the script defines the name with either
number. So a run never ends for want of a procedure, and it ends for a wrong number of arguments
only if the script defines the procedure twice with different numbers of parameters. -/
theorem run_linked {limit : Nat} {text : String} {script : Script}
    (h : parseScript limit text = .ok script) (turtle : Turtle) (limits : Limits) :
    (∀ c name arguments, (Moment.ofRun limits (.fresh turtle) script).Reaches c →
      c.task = .stmt (.call name arguments) →
      ∃ p, c.machine.env.procedures.lookup? name = some p ∧
        script.Defines name p.parameters.length ∧ script.Defines name arguments.length) ∧
    ∀ f context,
      ((Interpreter.on (.fresh turtle)).run limits script).2 = some (.error ⟨f, context⟩) →
      (∀ name, f ≠ .undefinedProcedure name) ∧
      ∀ name expected given, f = .argumentCount name expected given →
        expected ≠ given ∧ script.Defines name expected ∧ script.Defines name given := by
  obtain ⟨ts, -, hd, -⟩ := derived_of_parseScript h
  have hstart := linked_of_derived hd limits turtle
  refine ⟨fun c name arguments hr htask => hstart.call_of_reaches hr htask, ?_⟩
  intro f context hrun
  rw [Interpreter.halt_run] at hrun
  obtain ⟨m, ho⟩ := Outcome.exists_of_halt? hrun
  constructor
  · rintro name rfl
    obtain ⟨_, _, _, heq, -⟩ := hstart.mismatch_of_halted ho rfl
    cases heq
  · rintro name expected given rfl
    obtain ⟨_, _, _, heq, hmismatch⟩ := hstart.mismatch_of_halted ho rfl
    cases heq
    exact hmismatch

/-- The body of `Q` was parsed when `P` had a parameter, and it is executed when `P` has none. -/
theorem run_linked_redefined :
    ∃ script, parseScript 9 "TO P \"a END TO Q P \"1 END TO P END Q" = .ok script ∧
      (∀ c name arguments,
        (Moment.ofRun ⟨9, 99⟩ (.fresh (.startingAt 0.0 0.0)) script).Reaches c →
        c.task = .stmt (.call name arguments) →
        ∃ p, c.machine.env.procedures.lookup? name = some p ∧
          script.Defines name p.parameters.length ∧ script.Defines name arguments.length) ∧
      ∀ f context,
        ((Interpreter.on (.fresh (.startingAt 0.0 0.0))).run ⟨9, 99⟩ script).2 =
          some (.error ⟨f, context⟩) →
        (∀ name, f ≠ .undefinedProcedure name) ∧
        ∀ name expected given, f = .argumentCount name expected given →
          expected ≠ given ∧ script.Defines name expected ∧ script.Defines name given := by
  have hok : (parseScript 9 "TO P \"a END TO Q P \"1 END TO P END Q").toBool = true := by
    decide +kernel
  cases h : parseScript 9 "TO P \"a END TO Q P \"1 END TO P END Q" with
  | error e =>
    rw [h] at hok
    cases hok
  | ok script => exact ⟨script, rfl, run_linked h (.startingAt 0.0 0.0) ⟨9, 99⟩⟩

end TurtleGraphics
