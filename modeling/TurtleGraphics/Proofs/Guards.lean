import TurtleGraphics.Proofs.Endings
import TurtleGraphics.Proofs.Failures
import TurtleGraphics.Proofs.PrefixOrder

/-!
# TurtleGraphics.Proofs.Guards

The checks of the interpreter that only a tree built by hand can fail.

* `Fault.isGuard`, `Halt.isGuard` : a part of the wrong sort, a word that is not in the vocabulary,
  an operand that is not there, a statement that cannot be shown, a second run.
* `perform_fails`         : a command that is known fails over its operand, or by no such check.
* `Linked.spares_of_fails` : no step of a run of a parsed script fails such a check.
* `run_spares_guards`     : so no run of it does.

A guard repeats for one table what the parser has settled by another. That the tables agree is
`Keyword.Listed.isKnown`: the parser takes its words from the vocabulary, and a word of the
vocabulary is known wherever it is used.
-/

namespace TurtleGraphics

/-- The check is one of the tree or of the interpreter, and not one of what the script computes. -/
def Fault.isGuard : Fault → Bool
  | .undefinedVariable _ => false
  | .divisionByZero => false
  | .undefinedProcedure _ => false
  | .argumentCount _ _ _ => false
  | .unknownCommand _ => true
  | .unknownOperator _ => true
  | .unknownQuery _ => true
  | .colorNotWhole _ => false
  | .colorOutOfRange _ => false
  | .misfit _ => true
  | .alreadyFinished _ => true

/-- The run has ended over a check of the tree or of the interpreter. -/
def Halt.isGuard : Halt → Bool
  | .error e => e.fault.isGuard
  | .noDirection => false
  | .noOperand => true
  | .unprintable _ => true
  | .tooDeep => false
  | .outOfSteps => false

theorem Halt.isGuard_inStatement {s : Stmt} {text : String} (hs : s.summary = .ok text)
    (why : Halt) : (why.inStatement s).isGuard = why.isGuard := by
  cases why with
  | error e =>
    obtain ⟨f, context⟩ := e
    cases context with
    | some _ => rfl
    | none => simp only [Halt.inStatement, hs, Halt.isGuard]
  | _ => rfl

/-! ## The vocabulary -/

/-- The keyword is not the stand-in for a word that has no meaning. -/
def Keyword.isKnown : Keyword → Bool
  | .command (.unknown _) => false
  | .query (.unknown _) => false
  | .numeric (.unknown _) => false
  | .logic (.unknown _) => false
  | _ => true

theorem Keyword.Listed.isKnown {k : Keyword} (h : k.Listed) : k.isKnown = true := by
  have hall : ∀ e ∈ vocabulary, e.2.isKnown = true := by decide
  exact hall _ h

/-! ## Expressions -/

theorem NumericOp.spares_of_apply {op : NumericOp} (hop : (Keyword.numeric op).isKnown = true)
    {l r : Float} {f : Fault} (h : op.apply l r = .error f) : f.isGuard = false := by
  cases op with
  | div =>
    simp only [NumericOp.apply] at h
    split at h
    · cases h
      rfl
    · cases h
  | unknown w => cases hop
  | _ => cases h

namespace Expr

variable {env : Environment} {f : Fault}

theorem InLanguage.spares_of_eval {e : Expr} (he : e.InLanguage) (h : e.eval env = .error f) :
    f.isGuard = false := by
  induction e generalizing f with
  | number x => cases h
  | boolean b => cases h
  | «variable» name =>
    simp only [eval] at h
    split at h
    · cases h
    · cases h
      rfl
  | query q =>
    have hq := Keyword.Listed.isKnown he
    cases q with
    | unknown w => cases hq
    | _ => cases h
  | numeric op l r ihl ihr =>
    obtain ⟨hop, hl, hr⟩ := he
    simp only [eval] at h
    split at h
    · rename_i heval
      cases h
      exact ihl hl heval
    · split at h
      · rename_i heval
        cases h
        exact ihr hr heval
      · exact NumericOp.spares_of_apply hop.isKnown h
  | logic op l r ihl ihr =>
    obtain ⟨hop, hl, hr⟩ := he
    simp only [eval] at h
    split at h
    · rename_i heval
      cases h
      exact ihl hl heval
    · split at h
      · rename_i heval
        cases h
        exact ihr hr heval
      · have hknown := hop.isKnown
        cases op with
        | unknown w => cases hknown
        | _ => cases h
  | negation e ih =>
    simp only [eval] at h
    split at h
    · rename_i heval
      cases h
      exact ih he heval
    · cases h
  | foreign s => cases he

theorem AllDerived.inLanguage {ts : List Token} {es : List Expr} (h : AllDerived ts es) :
    ∀ e ∈ es, e.InLanguage := by
  induction h with
  | nil => nofun
  | cons he _ ih => exact List.forall_mem_cons.mpr ⟨he.inLanguage, ih⟩

theorem spares_of_evalAll {es : List Expr} (hes : ∀ e ∈ es, e.InLanguage)
    (h : evalAll env es = .error f) : f.isGuard = false := by
  induction es with
  | nil => cases h
  | cons e es ih =>
    obtain ⟨he, hes⟩ := List.forall_mem_cons.mp hes
    simp only [evalAll] at h
    split at h
    · rename_i heval
      cases h
      exact he.spares_of_eval heval
    · split at h
      · rename_i heval
        cases h
        exact ih hes heval
      · cases h

end Expr

/-! ## Commands -/

/-- An operand is not there, or its evaluation fails. -/
inductive OperandFails (env : Environment) : List Expr → Halt → Prop where
  | missing : OperandFails env [] .noOperand
  | fault {e : Expr} {rest : List Expr} {f : Fault} : e.eval env = .error f →
      OperandFails env (e :: rest) (.ofFault f)

section

variable {env : Environment} {operands : List Expr} {why : Halt}

theorem operandFails_of_operandValue (h : operandValue env operands = .error why) :
    OperandFails env operands why := by
  unfold operandValue at h
  split at h
  · cases h
    exact .missing
  · split at h
    · rename_i he
      cases h
      exact .fault he
    · cases h

/-- A command that goes on with the number of its operand fails over the operand, or does so as
what comes next does. -/
theorem fails_of_number {next : Float → Except Halt Effect}
    (hnext : ∀ d why, next d = .error why → why.isGuard = false)
    (h : (match operandNumber env operands with
      | .error why => .error why
      | .ok d => next d) = Except.error why) :
    OperandFails env operands why ∨ why.isGuard = false := by
  split at h
  · rename_i hnumber
    cases h
    unfold operandNumber at hnumber
    split at hnumber
    · rename_i hvalue
      cases hnumber
      exact .inl (operandFails_of_operandValue hvalue)
    · cases hnumber
  · exact .inr (hnext _ _ h)

theorem spares_of_walk {distance offset : Float} (h : walk env distance offset = .error why) :
    why.isGuard = false := by
  unfold walk at h
  split at h
  · cases h
    rfl
  · cases h

theorem spares_of_colorIndex {value : Value} {f : Fault} (h : colorIndex value = .error f) :
    f.isGuard = false := by
  unfold colorIndex at h
  split at h
  · cases h
    rfl
  · split at h
    · cases h
      rfl
    · split at h
      · cases h
      · cases h
        rfl

/-- A command that is known needs its operand where it has one, and checks no tree besides. -/
theorem perform_fails {v : Verb} (hv : (Keyword.command v).isKnown = true)
    {target : Option String} (h : perform env v operands target = .error why) :
    v.arity = 1 ∧ OperandFails env operands why ∨ why.isGuard = false := by
  have hwalk : ∀ {sign offset : Float}, walkOperand env operands sign offset = .error why →
      OperandFails env operands why ∨ why.isGuard = false :=
    fun h => fails_of_number (fun _ _ => spares_of_walk) h
  have hsteer : ∀ {change : Turtle → Float → Turtle}, steer env operands change = .error why →
      OperandFails env operands why ∨ why.isGuard = false :=
    fun h => fails_of_number (fun _ _ hd => by cases hd) h
  have hplace : ∀ {change : Turtle → Float → Turtle}, place env operands change = .error why →
      OperandFails env operands why ∨ why.isGuard = false :=
    fun h => fails_of_number (fun _ _ hd => by cases hd) h
  cases v with
  | penUp => cases h
  | penDown => cases h
  | forward => exact (hwalk h).imp_left (.intro rfl)
  | back => exact (hwalk h).imp_left (.intro rfl)
  | left => exact (hwalk h).imp_left (.intro rfl)
  | right => exact (hwalk h).imp_left (.intro rfl)
  | turn => exact (hsteer h).imp_left (.intro rfl)
  | setHeading =>
    simp only [perform] at h
    exact (hsteer h).imp_left (.intro rfl)
  | setX =>
    simp only [perform] at h
    exact (hplace h).imp_left (.intro rfl)
  | setY =>
    simp only [perform] at h
    exact (hplace h).imp_left (.intro rfl)
  | setPenColor =>
    refine (fails_of_number ?_ h).imp_left (.intro rfl)
    intro d why hd
    split at hd
    · rename_i hcolor
      cases hd
      exact spares_of_colorIndex hcolor
    · cases hd
  | make =>
    simp only [perform, makeVariable] at h
    split at h
    · rename_i hvalue
      cases h
      exact .inl ⟨rfl, operandFails_of_operandValue hvalue⟩
    · cases h
  | addAssign =>
    refine (fails_of_number ?_ h).imp_left (.intro rfl)
    intro d why hd
    split at hd
    · cases hd
    · cases hd
      rfl
  | unknown w => cases hv

end

/-! ## Statements of a parsed script -/

theorem Stmt.Derived.command_inLanguage {d : Declarations} {ts : List Token} {v : Verb}
    {operands : List Expr} {target : Option String}
    (h : Stmt.Derived d ts (.command v operands target)) :
    (Keyword.command v).isKnown = true ∧ ∀ e ∈ operands, e.InLanguage := by
  cases h with
  | command hw _ hes _ => exact ⟨(Keyword.listed_of_of? hw).isKnown, hes.inLanguage⟩
  | assignment hw _ he =>
    exact ⟨(Keyword.listed_of_of? hw).isKnown, List.forall_mem_singleton.mpr he.inLanguage⟩

theorem Script.Derived.shown {d : Declarations} {ts : List Token} {ss : List Stmt}
    (h : Script.Derived d ts ss) : ∀ s ∈ ss, ∃ text, s.summary = .ok text := by
  induction h with
  | nil => nofun
  | statement hs _ ih =>
    obtain ⟨us, hus⟩ := hs.shown
    exact List.forall_mem_cons.mpr ⟨⟨spaced us, by rw [Stmt.summary, hus]⟩, ih⟩
  | definition _ _ _ _ _ _ _ ih => exact List.forall_mem_cons.mpr ⟨⟨_, rfl⟩, ih⟩

namespace Linked

variable {script : Script} {m : Machine}

theorem statement {s : Stmt} (h : Linked script [s] m)
    (hs : ∀ name parameters body, s ≠ .define name parameters body) :
    ∃ d ts, Stmt.Derived d ts s := by
  obtain ⟨d, ts, hd, -⟩ := h.derived
  cases hd with
  | statement hs _ => exact ⟨d, _, hs⟩
  | definition _ _ _ _ _ _ _ => exact absurd rfl (hs _ _ _)

/-- What fails by itself in a run of a parsed script does not fail a check of the tree. -/
theorem spares_of_fails {c : Moment} {why : Halt} (h : Linked script c.task.stmts c.machine)
    (hfails : c.Fails why) : why.isGuard = false := by
  cases hfails with
  | command hp =>
    obtain ⟨d, ts, hs⟩ := h.statement nofun
    obtain ⟨hknown, hlanguage⟩ := hs.command_inLanguage
    obtain ⟨harity, hoperand⟩ | hspares := perform_fails hknown hp
    · cases hoperand with
      | missing =>
        -- The parser has read as many operands as the command takes.
        have hlength := hs.operands_length
        rw [harity] at hlength
        cases hlength
      | fault he => exact (hlanguage _ List.mem_cons_self).spares_of_eval he
    · exact hspares
  | ifThen he =>
    obtain ⟨d, ts, hs⟩ := h.statement nofun
    cases hs with
    | ifThen _ hc _ _ _ => exact hc.inLanguage.spares_of_eval he
  | loop he =>
    obtain ⟨d, ts, hs⟩ := h.statement nofun
    cases hs with
    | whileDo _ hc _ _ _ => exact hc.inLanguage.spares_of_eval he
  | call hc =>
    obtain ⟨d, ts, hs⟩ := h.statement nofun
    cases hs with
    | call _ _ hes =>
      cases enterCall_eq_error_iff.mp hc with
      | undefined _ => rfl
      | count _ _ => rfl
      | argument _ _ hf => exact Expr.spares_of_evalAll hes.inLanguage hf
  | foreign =>
    obtain ⟨d, ts, hs⟩ := h.statement nofun
    cases hs
  | tooDeep => rfl
  | outOfSteps => rfl

end Linked

/-! ## Runs -/

/-- When a script that was parsed is run in an environment without procedures, neither the run nor
anything executed inside it fails a check of the tree: no part is of the wrong sort, no command,
operator or query is unknown, no operand is missing, and the interpreter has not finished before.
And every statement of whatever is executed can be shown, so an error can always be named. -/
theorem run_spares_guards {limit : Nat} {text : String} {script : Script}
    (h : parseScript limit text = .ok script) {env : Environment}
    (henv : env.procedures = .empty) (limits : Limits) :
    (∀ why, ((Interpreter.on env).run limits script).2 = some why → why.isGuard = false) ∧
    ∀ c, (Moment.ofRun limits env script).Reaches c →
      (∀ why, c.Fails why → why.isGuard = false) ∧
      ∀ s ∈ c.task.stmts, ∃ summary, s.summary = .ok summary := by
  obtain ⟨ts, -, hd, -⟩ := derived_of_parseScript h
  have hlinked : ∀ {c}, (Moment.ofRun limits env script).Reaches c →
      Linked script c.task.stmts c.machine :=
    fun hr => (upholds_linked script).reaches (linked_started hd henv limits) hr
  constructor
  · intro why hrun
    rw [Interpreter.halt_run] at hrun
    obtain ⟨m, ho⟩ := Outcome.exists_of_halt? hrun
    obtain ⟨c, own, hr, hfails, rfl | ⟨inner, s, hinner, htask, rfl⟩⟩ := Moment.gives_of_halted ho
    · exact (hlinked hr).spares_of_fails hfails
    · have hs := hlinked hinner
      rw [htask] at hs
      obtain ⟨summary, hsummary⟩ := Linked.shown hs
      rw [Halt.isGuard_inStatement hsummary]
      exact (hlinked hr).spares_of_fails hfails
  · intro c hr
    obtain ⟨d, us, hd, -⟩ := (hlinked hr).derived
    exact ⟨fun why hfails => (hlinked hr).spares_of_fails hfails, hd.shown⟩

/-- A run that ends early, over a division in the body of a procedure. -/
theorem run_spares_guards_divided :
    let script : Script := [.define "P" [] [.ifThen (.negation (.boolean false))
        [.command .setX [.numeric .div (.query .xcor) (.boolean false)] none]], .call "P" []]
    ∃ why, ((Interpreter.on (.fresh (.startingAt 0.0 0.0))).run ⟨9, 99⟩ script).2 = some why ∧
      why.isGuard = false ∧
      ∀ c, (Moment.ofRun ⟨9, 99⟩ (.fresh (.startingAt 0.0 0.0)) script).Reaches c →
        (∀ own, c.Fails own → own.isGuard = false) ∧
        ∀ s ∈ c.task.stmts, ∃ summary, s.summary = .ok summary := by
  intro script
  have hparse : parseScript 9 "TO P IF NOT \"FALSE [ SETX / XCOR \"FALSE ] END P" =
      .ok script := by
    with_unfolding_all rfl
  have hrun : ((Interpreter.on (.fresh (.startingAt 0.0 0.0))).run ⟨9, 99⟩ script).2 =
      some (.error ⟨.divisionByZero, some "SETX / XCOR \"FALSE"⟩) := rfl
  have hfresh : (Environment.fresh (.startingAt 0.0 0.0)).procedures = .empty := rfl
  obtain ⟨hends, hinside⟩ := run_spares_guards hparse hfresh ⟨9, 99⟩
  exact ⟨_, hrun, hends _ hrun, hinside⟩

end TurtleGraphics
