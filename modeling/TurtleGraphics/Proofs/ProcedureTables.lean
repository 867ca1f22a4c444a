import TurtleGraphics.Proofs.Hoisting

/-!
# TurtleGraphics.Proofs.ProcedureTables

The parser's table of procedures and the one of a run.

The parser declares a procedure before it reads its body; a run puts it into its table when it comes
to the definition. Both go by the top level of the script alone: there is no definition in a block
or a body, so that nothing but a statement of the top level can change the table of a run.

* `Script.LastDefines`        : the last definition of a name in a script.
* `Script.lookup?_defineAll_iff` : what is in a table behind the definitions of a script.
* `Script.signatures_declarations` : the parser's table is that one, with the numbers of parameters.
* `Moment.Behind`, `Moment.During` : the statements of a script that a run has executed so far.
* `upholds_settled`           : blocks, loops and calls leave the table as it is.
* `Moment.During.settled`     : at every moment the table is that of the statements executed so far.
* `run_tables`                : so the tables agree when a run has come to its end.
-/

namespace TurtleGraphics

/-! ## Tables of scripts -/

namespace Script

/-- The last definition of the name in the script is that of the procedure. -/
def LastDefines (script : Script) (name : String) (p : Procedure) : Prop :=
  ∃ earlier later, script = earlier ++ .define name p.parameters p.body :: later ∧
    name ∉ defined later

theorem lastDefines_cons {s : Stmt} {rest : Script} {name : String} {p : Procedure} :
    LastDefines (s :: rest) name p ↔
      LastDefines rest name p ∨ s = .define name p.parameters p.body ∧ name ∉ defined rest := by
  constructor
  · rintro ⟨earlier, later, heq, hlater⟩
    cases earlier with
    | nil =>
      obtain ⟨rfl, rfl⟩ := List.cons.inj heq
      exact .inr ⟨rfl, hlater⟩
    | cons t earlier =>
      obtain ⟨rfl, rfl⟩ := List.cons.inj heq
      exact .inl ⟨earlier, later, rfl, hlater⟩
  · rintro (⟨earlier, later, rfl, hlater⟩ | ⟨rfl, hlater⟩)
    · exact ⟨s :: earlier, later, rfl, hlater⟩
    · exact ⟨[], rest, rfl, hlater⟩

theorem LastDefines.mem_defined {script : Script} {name : String} {p : Procedure}
    (h : script.LastDefines name p) : name ∈ script.defined := by
  induction script with
  | nil =>
    obtain ⟨earlier, later, heq, -⟩ := h
    cases earlier <;> cases heq
  | cons s rest ih =>
    obtain hrest | ⟨rfl, -⟩ := lastDefines_cons.mp h
    · cases s with
      | define other parameters body => exact List.mem_cons_of_mem _ (ih hrest)
      | _ => exact ih hrest
    · exact List.mem_cons_self

/-- Behind the definitions of a script a table has the last one of every name, and what it had
under the other names. -/
theorem lookup?_defineAll_iff {script : Script} {table : Bindings String Procedure} {name : String}
    {p : Procedure} :
    (script.defineAll table).lookup? name = some p ↔
      script.LastDefines name p ∨ name ∉ script.defined ∧ table.lookup? name = some p := by
  induction script generalizing table with
  | nil =>
    have hnone : ¬ LastDefines [] name p := fun h => List.not_mem_nil h.mem_defined
    simp [defineAll, defined, hnone]
  | cons s rest ih =>
    rw [lastDefines_cons]
    cases s with
    | define other parameters body =>
      rw [defineAll, ih, defined, List.mem_cons]
      by_cases hother : name = other
      · subst hother
        rw [table.lookup?_insert_self]
        constructor
        · rintro (h | ⟨hrest, heq⟩)
          · exact .inl (.inl h)
          · cases heq
            exact .inl (.inr ⟨rfl, hrest⟩)
        · rintro ((h | ⟨heq, hrest⟩) | ⟨hnot, -⟩)
          · exact .inl h
          · cases heq
            exact .inr ⟨hrest, rfl⟩
          · exact absurd (.inl rfl) hnot
      · rw [table.lookup?_insert_of_ne hother]
        simp [hother, Ne.symm hother]
    | _ => exact ih.trans (or_congr_left (by simp))

theorem lookup?_defineAll_empty (script : Script) (name : String) (p : Procedure) :
    (script.defineAll .empty).lookup? name = some p ↔ script.LastDefines name p := by
  simp [lookup?_defineAll_iff]

theorem defineAll_append (table : Bindings String Procedure) (a b : Script) :
    defineAll table (a ++ b) = defineAll (defineAll table a) b := by
  induction a generalizing table with
  | nil => rfl
  | cons s a ih => cases s <;> exact ih _

end Script

/-! ## Declarations and definitions -/

namespace Bindings

variable {κ α β : Type}

/-- The same names, bound to what a function makes of what they were bound to. -/
def map (f : α → β) (b : Bindings κ α) : Bindings κ β :=
  ⟨b.entries.map fun entry => (entry.1, f entry.2)⟩

theorem names_map (f : α → β) (b : Bindings κ α) : (b.map f).names = b.names := by
  simp [names, map, Function.comp_def]

variable [DecidableEq κ]

theorem lookup?_map (f : α → β) (b : Bindings κ α) (name : κ) :
    (b.map f).lookup? name = (b.lookup? name).map f := by
  obtain ⟨entries⟩ := b
  simp only [lookup?, map]
  induction entries with
  | nil => rfl
  | cons entry rest ih =>
    rw [List.map_cons, find?, find?, ih]
    split <;> rfl

theorem map_insert (f : α → β) (b : Bindings κ α) (name : κ) (a : α) :
    (b.insert name a).map f = (b.map f).insert name (f a) := by
  obtain ⟨entries⟩ := b
  simp only [insert, map, mk.injEq]
  induction entries with
  | nil => rfl
  | cons entry rest ih =>
    rw [List.map_cons, put, put]
    split
    · rfl
    · rw [List.map_cons, ih]

end Bindings

theorem Declarations.signatures_cons (d : Declarations) (name : String) (n : Nat) :
    Declarations.signatures ((name, n) :: d) = d.signatures.insert name n := by
  rw [signatures, signatures, List.reverse_cons, Bindings.ofList, List.foldl_append]
  rfl

/-- Declarations and definitions make the same tables, but for the bodies. -/
theorem Script.signatures_declarations {d : Declarations} {table : Bindings String Procedure}
    (h : d.signatures = table.map fun p => p.parameters.length) (script : Script) :
    (declarations d script).signatures =
      (script.defineAll table).map fun p => p.parameters.length := by
  induction script generalizing d table with
  | nil => exact h
  | cons s rest ih =>
    cases s with
    | define name parameters body =>
      refine ih ?_
      rw [Declarations.signatures_cons, h, Bindings.map_insert]
    | _ => exact ih h

/-! ## Statements without definitions -/

/-- The statement was derived for a block or a body. Neither it nor any statement inside of it is a
definition. -/
def Stmt.Plain (s : Stmt) : Prop := ∃ d ts, Stmt.Derived d ts s

/-- The statement is plain, or it is the definition of a procedure with plain statements. -/
def Stmt.TopLevel : Stmt → Prop
  | .define _ _ body => ∀ s ∈ body, s.Plain
  | s => s.Plain

theorem Stmt.Plain.topLevel {s : Stmt} (h : s.Plain) : s.TopLevel := by
  obtain ⟨d, ts, hs⟩ := id h
  cases hs <;> exact h

theorem Stmt.AllDerived.plain {d : Declarations} {ts : List Token} {ss : List Stmt}
    (h : Stmt.AllDerived d ts ss) : ∀ s ∈ ss, s.Plain := by
  induction ss generalizing ts with
  | nil => nofun
  | cons s rest ih =>
    cases h with
    | cons hs hrest => exact List.forall_mem_cons.mpr ⟨⟨_, _, hs⟩, ih hrest⟩

theorem Script.Derived.topLevel {d : Declarations} {ts : List Token} {script : Script}
    (h : Script.Derived d ts script) : ∀ s ∈ script, s.TopLevel := by
  induction h with
  | nil => nofun
  | @statement d _ _ s _ hs _ ih =>
    exact List.forall_mem_cons.mpr ⟨Stmt.Plain.topLevel ⟨_, _, hs⟩, ih⟩
  | definition _ _ _ _ hb _ _ ih => exact List.forall_mem_cons.mpr ⟨hb.plain, ih⟩

theorem Stmt.TopLevel.plain {s : Stmt} (h : s.TopLevel) (hs : s.isDefinition = false) :
    s.Plain := by
  cases s with
  | define name parameters body => cases hs
  | _ => exact h

/-- Every procedure in the table has a plain body. -/
def PlainBodies (table : Bindings String Procedure) : Prop :=
  ∀ name p, table.lookup? name = some p → ∀ s ∈ p.body, s.Plain

theorem PlainBodies.empty : PlainBodies .empty := by
  intro name p hp
  rw [Bindings.lookup?_empty] at hp
  cases hp

theorem PlainBodies.defineAll {table : Bindings String Procedure} (h : PlainBodies table)
    {script : Script} (hscript : ∀ s ∈ script, s.TopLevel) :
    PlainBodies (script.defineAll table) := by
  intro name p hp
  obtain ⟨earlier, later, rfl, -⟩ | ⟨-, hp⟩ := Script.lookup?_defineAll_iff.mp hp
  · exact hscript (.define name p.parameters p.body) (by simp)
  · exact h name p hp

theorem PlainBodies.of_append {executed rest : Script}
    (h : ∀ s ∈ executed ++ rest, s.TopLevel) : PlainBodies (executed.defineAll .empty) :=
  .defineAll .empty fun s hs => h s (List.mem_append_left _ hs)

/-- Plain statements, to be executed with a table of plain bodies. -/
structure Settled (table : Bindings String Procedure) (ss : List Stmt) (m : Machine) : Prop where
  plain : ∀ s ∈ ss, s.Plain
  procedures : m.env.procedures = table
  bodies : PlainBodies table

/-- No plain statement changes the table, and all that it executes is plain. -/
theorem upholds_settled (table : Bindings String Procedure) :
    Upholds (Settled table) (fun m m' => m'.env.procedures = m.env.procedures) where
  refl _ := rfl
  trans h₁ h₂ := h₂.trans h₁
  head h := ⟨fun s hs => h.plain s (List.mem_singleton.mp hs ▸ List.mem_cons_self), h.procedures,
    h.bodies⟩
  tail h _ hkeeps := ⟨fun s hs => h.plain s (List.mem_cons_of_mem _ hs),
    hkeeps.trans h.procedures, h.bodies⟩
  ifThen h := by
    obtain ⟨d, ts, hs⟩ := h.plain _ List.mem_cons_self
    cases hs with
    | ifThen _ _ _ hb _ => exact ⟨hb.plain, h.procedures, h.bodies⟩
  whileDo h := by
    obtain ⟨d, ts, hs⟩ := h.plain _ List.mem_cons_self
    cases hs with
    | whileDo _ _ _ hb _ => exact ⟨hb.plain, h.procedures, h.bodies⟩
  again h hkeeps := ⟨h.plain, hkeeps.trans h.procedures, h.bodies⟩
  body h hc := by
    obtain ⟨p, _, hp, -, -, -, rfl⟩ := enterCall_cases hc
    rw [h.procedures] at hp
    exact ⟨h.bodies _ p hp, h.procedures, h.bodies⟩
  command _ hp := by rw [Machine.after_env, perform_procedures hp]
  define h := by
    obtain ⟨d, ts, hs⟩ := h.plain _ List.mem_cons_self
    cases hs
  leave h := h

/-! ## The statements executed so far -/

section

variable {steps depth : Nat} {s : Stmt} {ss : List Stmt} {m m₁ : Machine}

theorem Stmt.TopLevel.settled (h : s.TopLevel) (hs : s.isDefinition = false)
    (hbodies : PlainBodies m.env.procedures) : Settled m.env.procedures [s] m :=
  ⟨List.forall_mem_singleton.mpr (h.plain hs), rfl, hbodies⟩

/-- A statement of the top level that is no definition leaves the table as it is. -/
theorem Stmt.TopLevel.keeps_procedures (h : s.TopLevel) (hs : s.isDefinition = false)
    (hbodies : PlainBodies m.env.procedures) (steps depth : Nat) :
    (execute steps depth s m).machine.env.procedures = m.env.procedures :=
  (upholds_settled _).outcome (c := ⟨steps, depth, .stmt s, m⟩) (h.settled hs hbodies)

/-- A definition does not fail. It only runs out of steps, and then nothing has been done. -/
theorem execute_definition (hs : s.isDefinition = true) (steps depth : Nat) (m : Machine) :
    execute steps depth s m = .halted .outOfSteps m ∨
      ∃ name p, s = .define name p.parameters p.body ∧
        execute steps depth s m = .done (m.define name p) := by
  cases s with
  | define name parameters body =>
    cases steps with
    | zero => exact .inl rfl
    | succ steps => exact .inr ⟨name, ⟨parameters, body⟩, rfl, rfl⟩
  | _ => cases hs

/-- A statement of the top level that comes to its end has made the definition that it is, if it is
one. -/
theorem Stmt.TopLevel.procedures_of_done (h : s.TopLevel) (hbodies : PlainBodies m.env.procedures)
    (hdone : execute steps depth s m = .done m₁) :
    m₁.env.procedures = Script.defineAll m.env.procedures [s] := by
  cases hs : s.isDefinition with
  | true =>
    obtain hout | ⟨name, p, rfl, hdefine⟩ := execute_definition hs steps depth m
    · rw [hout] at hdone
      cases hdone
    · rw [hdefine] at hdone
      cases hdone
      rfl
  | false =>
    have hkeeps := h.keeps_procedures hs hbodies steps depth
    rw [hdone] at hkeeps
    cases s with
    | define name parameters body => cases hs
    | _ => exact hkeeps

/-- One that fails has not made any. -/
theorem Stmt.TopLevel.procedures_of_halted (h : s.TopLevel)
    (hbodies : PlainBodies m.env.procedures) {why : Halt}
    (hhalted : execute steps depth s m = .halted why m₁) :
    m₁.env.procedures = m.env.procedures := by
  cases hs : s.isDefinition with
  | true =>
    obtain hout | ⟨name, p, -, hdefine⟩ := execute_definition hs steps depth m
    · rw [hout] at hhalted
      cases hhalted
      rfl
    · rw [hdefine] at hhalted
      cases hhalted
  | false =>
    have hkeeps := h.keeps_procedures hs hbodies steps depth
    rwa [hhalted] at hkeeps

/-- However the execution of statements of the top level ends, the table is that behind some of
them, and behind all of them if they come to their end. -/
theorem executeAll_procedures (steps depth : Nat) (hss : ∀ s ∈ ss, s.TopLevel)
    (hbodies : PlainBodies m.env.procedures) :
    ∃ executed rest, ss = executed ++ rest ∧
      (executeAll steps depth ss m).machine.env.procedures =
        Script.defineAll m.env.procedures executed ∧
      ((executeAll steps depth ss m).halt? = none → rest = []) := by
  induction ss generalizing steps m with
  | nil => exact ⟨[], [], rfl, by cases steps <;> rfl, fun _ => rfl⟩
  | cons s ss ih =>
    obtain ⟨hs, hss⟩ := List.forall_mem_cons.mp hss
    cases steps with
    | zero => exact ⟨[], s :: ss, rfl, rfl, fun hnone => by cases hnone⟩
    | succ steps =>
      rw [executeAll]
      cases ho : execute steps depth s m with
      | halted why m₁ =>
        exact ⟨[], s :: ss, rfl, hs.procedures_of_halted hbodies ho,
          fun hnone => by cases hnone⟩
      | done m₁ =>
        have htable := hs.procedures_of_done hbodies ho
        have hbodies₁ := hbodies.defineAll (List.forall_mem_singleton.mpr hs)
        rw [← htable] at hbodies₁
        obtain ⟨executed, rest, rfl, hprocedures, hrest⟩ := ih steps hss hbodies₁
        refine ⟨s :: executed, rest, rfl, ?_, hrest⟩
        rw [hprocedures, htable, ← Script.defineAll_append, List.singleton_append]

theorem executeBlock_procedures (steps depth : Nat) (hss : ∀ s ∈ ss, s.TopLevel)
    (hbodies : PlainBodies m.env.procedures) :
    ∃ executed rest, ss = executed ++ rest ∧
      (executeBlock steps depth ss m).machine.env.procedures =
        Script.defineAll m.env.procedures executed ∧
      ((executeBlock steps depth ss m).halt? = none → rest = []) := by
  cases steps with
  | zero => exact ⟨[], ss, rfl, rfl, fun hnone => by cases hnone⟩
  | succ steps =>
    cases depth with
    | zero => exact ⟨[], ss, rfl, rfl, fun hnone => by cases hnone⟩
    | succ depth => exact executeAll_procedures steps depth hss hbodies

end

namespace Moment

/-- The statements `executed` of the script that `start` runs have been executed, and the moment is
about to execute those behind them. -/
inductive Behind : Moment → Script → Moment → Prop where
  | enter {steps depth : Nat} {ss : List Stmt} {m : Machine} :
      Behind ⟨steps + 1, depth + 1, .block ss, m⟩ [] ⟨steps, depth, .all ss, m⟩
  | next {start : Moment} {executed : Script} {steps depth : Nat} {s : Stmt} {rest : List Stmt}
      {m m₁ : Machine} :
      Behind start executed ⟨steps + 1, depth, .all (s :: rest), m⟩ →
      execute steps depth s m = .done m₁ →
      Behind start (executed ++ [s]) ⟨steps, depth, .all rest, m₁⟩

/-- At the moment the statements `executed` of the script have been executed: it is the start, or
the next statement is to be executed, or the next statement is being executed. -/
inductive During (start : Moment) : Script → Moment → Prop where
  | start : During start [] start
  | between {executed : Script} {c : Moment} : Behind start executed c → During start executed c
  | inside {executed : Script} {steps depth : Nat} {s : Stmt} {rest : List Stmt} {m : Machine}
      {c : Moment} : Behind start executed ⟨steps + 1, depth, .all (s :: rest), m⟩ →
      Reaches ⟨steps, depth, .stmt s, m⟩ c → During start executed c

variable {start c c' : Moment} {script executed : Script}

theorem Behind.task (h : Behind start executed c) : ∃ rest, c.task = .all rest := by
  cases h <;> exact ⟨_, rfl⟩

theorem During.calls (h : During start executed c) (htask : start.task = .block script)
    (hcall : c.Calls c') : ∃ executed', During start executed' c' := by
  cases h with
  | start =>
    cases hcall with
    | enter => exact ⟨[], .between .enter⟩
    | _ => cases htask
  | between hbehind =>
    obtain ⟨rest, hrest⟩ := hbehind.task
    cases hcall with
    | first => exact ⟨executed, .inside hbehind .refl⟩
    | next ho => exact ⟨_, .between (.next hbehind ho)⟩
    | _ => cases hrest
  | inside hbehind hr => exact ⟨executed, .inside hbehind (.tail hr hcall)⟩

theorem eq_of_reaches_definition {steps depth : Nat} {s : Stmt} {m : Machine}
    (hs : s.isDefinition = true) (hr : Reaches ⟨steps, depth, .stmt s, m⟩ c) :
    c = ⟨steps, depth, .stmt s, m⟩ := by
  obtain rfl | ⟨_, hcall, -⟩ := hr.cases_head
  · rfl
  · cases hcall <;> cases hs

/-- Every moment of the run of a script is behind some statements of it. -/
theorem during_of_reaches (htask : start.task = .block script) (hr : start.Reaches c) :
    ∃ executed, During start executed c := by
  induction hr with
  | refl => exact ⟨[], .start⟩
  | tail _ hcall ih =>
    obtain ⟨executed, h⟩ := ih
    exact h.calls htask hcall

section

variable (htask : start.task = .block script) (htable : start.machine.env.procedures = .empty)
  (hscript : ∀ s ∈ script, s.TopLevel)

include htask htable hscript

/-- Behind some statements of a script the others are left, with the table that the definitions
among the first have made. -/
theorem Behind.settled (h : Behind start executed c) :
    ∃ rest, c.task = .all rest ∧ script = executed ++ rest ∧
      c.machine.env.procedures = executed.defineAll .empty := by
  induction h with
  | enter =>
    cases htask
    exact ⟨script, rfl, rfl, htable⟩
  | @next start executed steps depth s rest m m₁ _ ho ih =>
    obtain ⟨_, heq, rfl, hprocedures⟩ := ih htask htable
    cases heq
    have hbodies : PlainBodies m.env.procedures := hprocedures ▸ .of_append hscript
    refine ⟨rest, rfl, by simp, ?_⟩
    rw [(hscript s (by simp)).procedures_of_done hbodies ho, hprocedures,
      ← Script.defineAll_append]

/-- At every moment the table has been made by the definitions executed so far, and there are
definitions only among the statements of the top level. -/
theorem During.settled (h : During start executed c) :
    (∃ rest, script = executed ++ rest) ∧
      c.machine.env.procedures = executed.defineAll .empty ∧ ∀ s ∈ c.task.stmts, s.TopLevel := by
  cases h with
  | start =>
    rw [htask]
    exact ⟨⟨script, rfl⟩, htable, hscript⟩
  | between hbehind =>
    obtain ⟨rest, hrest, rfl, hprocedures⟩ := hbehind.settled htask htable hscript
    rw [hrest]
    exact ⟨⟨rest, rfl⟩, hprocedures, fun s hs => hscript s (List.mem_append_right _ hs)⟩
  | @inside _ steps depth s rest m _ hbehind hr =>
    obtain ⟨_, heq, rfl, hprocedures⟩ := hbehind.settled htask htable hscript
    cases heq
    have hs : s.TopLevel := hscript s (by simp)
    refine ⟨⟨s :: rest, rfl⟩, ?_⟩
    cases hdefinition : s.isDefinition with
    | true =>
      -- A definition executes nothing inside.
      obtain rfl := eq_of_reaches_definition hdefinition hr
      exact ⟨hprocedures, List.forall_mem_singleton.mpr hs⟩
    | false =>
      have hbodies : PlainBodies m.env.procedures := hprocedures ▸ .of_append hscript
      have hsettled := (upholds_settled _).reaches (c := ⟨steps, depth, .stmt s, m⟩)
        (hs.settled hdefinition hbodies) hr
      exact ⟨hsettled.procedures.trans hprocedures, fun t ht => (hsettled.plain t ht).topLevel⟩

/-- Nothing but a definition of the top level changes the table. -/
theorem During.keeps (h : During start executed c)
    (hno : ∀ s ∈ c.task.stmts, s.isDefinition = false) :
    c.outcome.machine.env.procedures = c.machine.env.procedures := by
  obtain ⟨⟨rest, rfl⟩, hprocedures, htop⟩ := h.settled htask htable hscript
  have hbodies : PlainBodies c.machine.env.procedures := hprocedures ▸ .of_append hscript
  exact (upholds_settled _).outcome ⟨fun s hs => (htop s hs).plain (hno s hs), rfl, hbodies⟩

end

end Moment

/-! ## Runs -/

/-- At every moment of the run of a script that was parsed, the table of procedures maps exactly
the names of the definitions executed so far, each to the latest of them, and nothing but a
definition of the top level changes it. That holds of the end of the run, too. If nothing has ended
the run early, the parser has declared the same names, each with the number of parameters of its
procedure. -/
theorem run_tables {limit : Nat} {tokens : List Token} {script : Script} {declared : Declarations}
    (h : parse limit tokens = (.ok script, declared)) (turtle : Turtle) (limits : Limits) :
    (∀ c, (Moment.ofRun limits (.fresh turtle) script).Reaches c →
      (∃ executed rest, script = executed ++ rest ∧
        (Moment.ofRun limits (.fresh turtle) script).During executed c ∧
        ∀ name p, c.machine.env.procedures.lookup? name = some p ↔
          Script.LastDefines executed name p) ∧
      ((∀ s ∈ c.task.stmts, s.isDefinition = false) →
        c.outcome.machine.env.procedures = c.machine.env.procedures)) ∧
    ∀ i stop, (Interpreter.on (.fresh turtle)).run limits script = (i, stop) →
      (∃ executed rest, script = executed ++ rest ∧ (stop = none → rest = []) ∧
        ∀ name p, i.env.procedures.lookup? name = some p ↔
          Script.LastDefines executed name p) ∧
      (stop = none → declared.signatures.names = i.env.procedures.names ∧
        ∀ name p, i.env.procedures.lookup? name = some p →
          declared.signatures.lookup? name = some p.parameters.length) := by
  obtain ⟨hderived, hn⟩ := derived_of_parse (congrArg Prod.fst h)
  rw [parse_of_derived hderived hn] at h
  obtain ⟨-, rfl⟩ := Prod.mk.inj h
  have hscript := hderived.topLevel
  refine ⟨fun c hr => ?_, fun i stop hrun => ?_⟩
  · obtain ⟨executed, hduring⟩ := Moment.during_of_reaches rfl hr
    obtain ⟨⟨rest, hsplit⟩, hprocedures, -⟩ := hduring.settled rfl rfl hscript
    refine ⟨⟨executed, rest, hsplit, hduring, ?_⟩, hduring.keeps rfl rfl hscript⟩
    rw [hprocedures]
    exact executed.lookup?_defineAll_empty
  · have hstop := congrArg Prod.snd hrun
    have henv := congrArg (fun r => r.1.env) hrun
    simp only [Interpreter.halt_run] at hstop
    simp only [Interpreter.env_run] at henv
    obtain ⟨executed, rest, hsplit, hprocedures, hrest⟩ :=
      executeBlock_procedures limits.steps limits.depth
        (m := Interpreter.started (.on (.fresh turtle))) hscript .empty
    have htable : i.env.procedures = Script.defineAll .empty executed := henv ▸ hprocedures
    rw [htable]
    refine ⟨⟨executed, rest, hsplit, fun hnone => hrest (hstop.trans hnone),
      Script.lookup?_defineAll_empty executed⟩, fun hnone => ?_⟩
    rw [hrest (hstop.trans hnone), List.append_nil] at hsplit
    subst hsplit
    have hempty : Declarations.signatures [] = Bindings.empty.map fun p : Procedure =>
        p.parameters.length := rfl
    rw [Script.signatures_declarations hempty script, Bindings.names_map]
    refine ⟨rfl, fun name p hp => ?_⟩
    rw [Bindings.lookup?_map, hp]
    rfl

/-- The procedure has a parameter when it is called first, and none in the end. -/
theorem run_tables_redefined :
    let first : Stmt := .define "P" ["a"] []
    let script : Script := [first, .call "P" [.boolean true], .define "P" [] [], .call "P" []]
    let start := Moment.ofRun ⟨9, 99⟩ (.fresh (.startingAt 0.0 0.0)) script
    let i := ((Interpreter.on (.fresh (.startingAt 0.0 0.0))).run ⟨9, 99⟩ script).1
    ∃ declared c, parse 9 [.ofWord "TO", .ofWord "P", .ofQuoted "a", .ofWord "END", .ofWord "P",
        .ofQuoted "TRUE", .ofWord "TO", .ofWord "P", .ofWord "END", .ofWord "P"] =
          (.ok script, declared) ∧
      start.Reaches c ∧ c.task = .stmt (.call "P" [.boolean true]) ∧
      (∃ executed rest, script = executed ++ rest ∧ start.During executed c ∧
        ∀ name p, c.machine.env.procedures.lookup? name = some p ↔
          Script.LastDefines executed name p) ∧
      c.outcome.machine.env.procedures = c.machine.env.procedures ∧
      declared.signatures.names = i.env.procedures.names ∧
      ∀ name p, i.env.procedures.lookup? name = some p →
        declared.signatures.lookup? name = some p.parameters.length := by
  intro first script start i
  have hparse : parse 9 [.ofWord "TO", .ofWord "P", .ofQuoted "a", .ofWord "END", .ofWord "P",
      .ofQuoted "TRUE", .ofWord "TO", .ofWord "P", .ofWord "END", .ofWord "P"] =
        (.ok script, [("P", 0), ("P", 1)]) := by
    with_unfolding_all rfl
  have hrun : (Interpreter.on (.fresh (.startingAt 0.0 0.0))).run ⟨9, 99⟩ script = (i, none) := rfl
  obtain ⟨hmoments, hend⟩ := run_tables hparse (.startingAt 0.0 0.0) ⟨9, 99⟩
  have hreaches : start.Reaches ⟨96, 8, .stmt (.call "P" [.boolean true]),
      start.machine.define "P" ⟨["a"], []⟩⟩ :=
    .tail (.tail (.single .enter) (.next rfl)) .first
  obtain ⟨hmoment, hkeeps⟩ := hmoments _ hreaches
  obtain ⟨hnames, hlookup⟩ := (hend i none hrun).2 rfl
  exact ⟨_, _, hparse, hreaches, rfl, hmoment, hkeeps (by simp [Task.stmts, Stmt.isDefinition]),
    hnames, hlookup⟩

end TurtleGraphics
