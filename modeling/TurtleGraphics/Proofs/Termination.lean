import TurtleGraphics.Proofs.Limits
import TurtleGraphics.Proofs.Scopes
import TurtleGraphics.Proofs.ScriptText

/-!
# TurtleGraphics.Proofs.Termination

Scripts that come to an end.

A script without loops can only go on for ever by calls. The parser lets a body call what was
defined before it, and itself. If no body calls itself and no name is defined twice, then the place
of a definition in the script is a rank that every call lowers, also when the table of procedures
is filled at another time than that of the parser.

* `Stmt.Ranked`        : a statement has no loop, and calls only procedures below a rank.
* `Script.Derived.ranked` : the statements of a script are ranked by the order of its definitions.
* `Descending`         : the invariant, that the ranks left are as many as scopes may be added.
* `Moment.Roomy`       : the steps and the depth that are left are enough for the ranks left.
* `run_ends_of_loopFree` : so the run ends by itself, and never has more scopes than definitions.
-/

namespace TurtleGraphics

/-! ## Loops and calls -/

mutual

/-- Whether a statement has no loop in it, nor in its block or body. -/
def Stmt.loopFree : Stmt → Bool
  | .ifThen _ block => Stmt.allLoopFree block
  | .whileDo _ _ => false
  | .define _ _ body => Stmt.allLoopFree body
  | _ => true

/-- Whether there is no loop in several statements. -/
def Stmt.allLoopFree : List Stmt → Bool
  | [] => true
  | s :: rest => s.loopFree && Stmt.allLoopFree rest

end

mutual

/-- The procedures that a statement calls. A definition calls none. -/
def Stmt.calls : Stmt → List String
  | .ifThen _ block => Stmt.allCalls block
  | .whileDo _ block => Stmt.allCalls block
  | .call name _ => [name]
  | _ => []

/-- The procedures that several statements call. -/
def Stmt.allCalls : List Stmt → List String
  | [] => []
  | s :: rest => s.calls ++ Stmt.allCalls rest

end

/-! ## Ranks -/

mutual

/-- A statement has no loop and calls procedures below a rank only. The body of a definition in it
calls procedures below the rank of what it defines. -/
def Stmt.Ranked (rank : String → Nat) (r : Nat) : Stmt → Prop
  | .ifThen _ block => Stmt.AllRanked rank r block
  | .whileDo _ _ => False
  | .define name _ body => Stmt.AllRanked rank (rank name) body
  | .call name _ => rank name < r
  | _ => True

/-- Several statements have no loops and call procedures below a rank only. -/
def Stmt.AllRanked (rank : String → Nat) (r : Nat) : List Stmt → Prop
  | [] => True
  | s :: rest => s.Ranked rank r ∧ Stmt.AllRanked rank r rest

end

@[simp] theorem Stmt.allRanked_singleton {rank : String → Nat} {r : Nat} {s : Stmt} :
    Stmt.AllRanked rank r [s] ↔ s.Ranked rank r := by
  simp [Stmt.AllRanked]

mutual

theorem Stmt.Derived.ranked {rank : String → Nat} {r : Nat} {d : Declarations} {ts : List Token}
    {s : Stmt} : Stmt.Derived d ts s → s.loopFree = true →
    (∀ name ∈ s.calls, d.arity? name ≠ none → rank name < r) → s.Ranked rank r
  | .command _ _ _ _, _, _ => trivial
  | .assignment _ _ _, _, _ => trivial
  | .ifThen _ _ _ hb _, hloop, hcalls => hb.ranked hloop hcalls
  | .whileDo _ _ _ _ _, hloop, _ => nomatch hloop
  | .call _ harity _, _, hcalls => hcalls _ List.mem_cons_self (by simp [harity])

theorem Stmt.AllDerived.ranked {rank : String → Nat} {r : Nat} {d : Declarations}
    {ts : List Token} {ss : List Stmt} : Stmt.AllDerived d ts ss → Stmt.allLoopFree ss = true →
    (∀ name ∈ Stmt.allCalls ss, d.arity? name ≠ none → rank name < r) →
    Stmt.AllRanked rank r ss
  | .nil, _, _ => trivial
  | .cons hs hss, hloop, hcalls =>
    have hloops := Bool.and_eq_true_iff.mp hloop
    ⟨hs.ranked hloops.1 fun name hn => hcalls name (List.mem_append_left _ hn),
      hss.ranked hloops.2 fun name hn => hcalls name (List.mem_append_right _ hn)⟩

end

/-- The place of a definition in the script is its rank. -/
theorem Script.Derived.ranked {d : Declarations} {ts : List Token} {script : Script}
    (h : Script.Derived d ts script) {earlier names : List String}
    (hnames : names = earlier ++ Script.defined script) (honce : names.Nodup)
    (hearlier : ∀ name, d.arity? name ≠ none → name ∈ earlier)
    (hloop : Stmt.allLoopFree script = true)
    (hself : ∀ name parameters body, .define name parameters body ∈ script →
      name ∉ Stmt.allCalls body) :
    Stmt.AllRanked names.idxOf names.length script := by
  induction h generalizing earlier with
  | nil => trivial
  | @statement d ts us s ss hs _ ih =>
    have hloops := Bool.and_eq_true_iff.mp hloop
    rw [Script.defined_cons_of_derived hs] at hnames
    have hrest := ih hnames hearlier hloops.2 fun name parameters body hmem =>
      hself name parameters body (List.mem_cons_of_mem _ hmem)
    refine ⟨hs.ranked hloops.1 ?_, hrest⟩
    intro name _ hd
    rw [List.idxOf_lt_length_iff, hnames]
    exact List.mem_append_left _ (hearlier name hd)
  | @definition d start stop name ps bs us body ss _ _ _ _ hbody _ _ ih =>
    have hloops := Bool.and_eq_true_iff.mp hloop
    have hsplit : names = earlier ++ [name] ++ Script.defined ss := by
      simp [hnames, Script.defined]
    have hdeclared : ∀ other, Declarations.arity? ((name, ps.length) :: d) other ≠ none →
        other = name ∨ other ∈ earlier := by
      intro other hd
      by_cases hother : other = name
      · exact .inl hother
      · have hbeq : (other == name) = false := beq_eq_false_iff_ne.mpr hother
        have hlookup : Declarations.arity? ((name, ps.length) :: d) other = d.arity? other := by
          simp [Declarations.arity?, List.lookup_cons, hbeq]
        exact .inr (hearlier other (hlookup ▸ hd))
    have hrest := ih hsplit (fun other hd => by simpa [or_comm] using hdeclared other hd) hloops.2
      fun name parameters body hmem => hself name parameters body (List.mem_cons_of_mem _ hmem)
    refine ⟨hbody.ranked hloops.1 ?_, hrest⟩
    intro other hcall hd
    -- What the body calls is not the procedure itself, so it was defined before.
    have hother : other ∈ earlier := by
      rcases hdeclared other hd with rfl | hother
      · exact absurd hcall (hself other _ body List.mem_cons_self)
      · exact hother
    have hname : name ∉ earlier := by
      intro hmem
      rw [hnames, Script.defined] at honce
      exact (List.nodup_append.mp honce).2.2 name hmem name List.mem_cons_self rfl
    have hplace : names.idxOf name = earlier.length := by
      rw [hnames, Script.defined, List.idxOf_append_of_notMem hname, List.idxOf_cons_self,
        Nat.add_zero]
    show names.idxOf other < names.idxOf name
    rw [hplace, hnames, List.idxOf_append_of_mem hother]
    exact List.idxOf_lt_length_of_mem hother

/-! ## How much there is to execute -/

mutual

/-- How many steps, and how much depth, are enough for a statement but for the calls in it. -/
def Stmt.height : Stmt → Nat
  | .ifThen _ block => Stmt.allHeight block + 2
  | .whileDo _ block => Stmt.allHeight block + 2
  | .define _ _ body => Stmt.allHeight body + 2
  | _ => 1

/-- How many steps, and how much depth, are enough for several statements. -/
def Stmt.allHeight : List Stmt → Nat
  | [] => 1
  | s :: rest => max s.height (Stmt.allHeight rest) + 1

end

/-- How many steps, and how much depth, are enough for a script but for the calls in it. -/
def Script.height (script : Script) : Nat := Stmt.allHeight script + 1

/-- The same of a task. -/
def Task.height : Task → Nat
  | .stmt s => s.height
  | .loop _ ss => Stmt.allHeight ss + 1
  | .block ss => Stmt.allHeight ss + 1
  | .all ss => Stmt.allHeight ss

theorem Stmt.height_pos (s : Stmt) : 0 < s.height := by
  cases s <;> simp [height]

theorem Stmt.allHeight_pos (ss : List Stmt) : 0 < Stmt.allHeight ss := by
  cases ss <;> simp [allHeight]

theorem Task.height_pos (task : Task) : 0 < task.height := by
  cases task with
  | stmt s => exact s.height_pos
  | loop e block => exact Nat.succ_pos _
  | block ss => exact Nat.succ_pos _
  | all ss => exact Stmt.allHeight_pos ss

/-! ## The invariant -/

/-- Every procedure in the table calls procedures of lower ranks only, and is not too high. -/
def TableRanked (rank : String → Nat) (high : Nat) (table : Bindings String Procedure) : Prop :=
  ∀ name p, table.lookup? name = some p →
    Stmt.AllRanked rank (rank name) p.body ∧ Stmt.allHeight p.body < high

/-- Statements about to be executed call procedures below some rank, and together with the scopes
that there are this rank is at most `most`. -/
structure Descending (rank : String → Nat) (most high : Nat) (ss : List Stmt) (m : Machine) :
    Prop where
  ranked : ∃ r, Stmt.AllRanked rank r ss ∧ m.env.depth + r ≤ most
  height : Stmt.allHeight ss < high
  table : TableRanked rank high m.env.procedures

/-- There are as many scopes as before, and the table is still ranked. -/
structure KeepsRanks (rank : String → Nat) (high : Nat) (m m' : Machine) : Prop where
  depth : m'.env.depth = m.env.depth
  table : TableRanked rank high m.env.procedures → TableRanked rank high m'.env.procedures

theorem TableRanked.insert {rank : String → Nat} {high : Nat} {table : Bindings String Procedure}
    (h : TableRanked rank high table) {name : String} {p : Procedure}
    (hp : Stmt.AllRanked rank (rank name) p.body) (hhigh : Stmt.allHeight p.body < high) :
    TableRanked rank high (table.insert name p) := by
  intro other q hq
  by_cases hn : other = name
  · subst hn
    rw [table.lookup?_insert_self] at hq
    cases hq
    exact ⟨hp, hhigh⟩
  · rw [table.lookup?_insert_of_ne hn] at hq
    exact h other q hq

namespace Descending

variable {rank : String → Nat} {most high : Nat} {m : Machine}

theorem mono {ss : List Stmt} {m' : Machine} (h : Descending rank most high ss m)
    (hkeeps : KeepsRanks rank high m m') : Descending rank most high ss m' := by
  obtain ⟨r, hranked, hdepth⟩ := h.ranked
  exact ⟨⟨r, hranked, hkeeps.depth ▸ hdepth⟩, h.height, hkeeps.table h.table⟩

theorem head {s : Stmt} {rest : List Stmt} (h : Descending rank most high (s :: rest) m) :
    Descending rank most high [s] m := by
  obtain ⟨r, hranked, hdepth⟩ := h.ranked
  have hheight := h.height
  have hpos := Stmt.allHeight_pos rest
  simp only [Stmt.allHeight] at hheight
  refine ⟨⟨r, Stmt.allRanked_singleton.mpr hranked.1, hdepth⟩, ?_, h.table⟩
  simp only [Stmt.allHeight]
  omega

theorem tail {s : Stmt} {rest : List Stmt} (h : Descending rank most high (s :: rest) m) :
    Descending rank most high rest m := by
  obtain ⟨r, hranked, hdepth⟩ := h.ranked
  have hheight := h.height
  simp only [Stmt.allHeight] at hheight
  exact ⟨⟨r, hranked.2, hdepth⟩, by omega, h.table⟩

theorem ifThen {e : Expr} {block : List Stmt} (h : Descending rank most high [.ifThen e block] m) :
    Descending rank most high block m := by
  obtain ⟨r, hranked, hdepth⟩ := h.ranked
  have hheight := h.height
  simp only [Stmt.allHeight, Stmt.height] at hheight
  exact ⟨⟨r, hranked.1, hdepth⟩, by omega, h.table⟩

theorem not_whileDo {e : Expr} {block : List Stmt} :
    ¬Descending rank most high [.whileDo e block] m := by
  intro h
  obtain ⟨r, hranked, -⟩ := h.ranked
  exact hranked.1

/-- A call lowers the rank, and adds one scope. -/
theorem body {name : String} {arguments : List Expr} {scope : Scope} {body : List Stmt}
    (h : Descending rank most high [.call name arguments] m)
    (hc : enterCall m.env name arguments = .ok (scope, body)) :
    Descending rank most high body (m.pushScope scope) := by
  obtain ⟨p, _, hp, -, -, -, rfl⟩ := enterCall_cases hc
  obtain ⟨r, hranked, hdepth⟩ := h.ranked
  obtain ⟨hbody, hhigh⟩ := h.table name p hp
  have hlower : rank name < r := hranked.1
  have hscopes : (m.pushScope scope).env.depth = m.env.depth + 1 := rfl
  exact ⟨⟨rank name, hbody, by omega⟩, hhigh, h.table⟩

theorem define {name : String} {parameters : List String} {body : List Stmt}
    (h : Descending rank most high [.define name parameters body] m) :
    KeepsRanks rank high m (m.define name ⟨parameters, body⟩) := by
  obtain ⟨r, hranked, -⟩ := h.ranked
  have hheight := h.height
  simp only [Stmt.allHeight, Stmt.height] at hheight
  have hhigh : Stmt.allHeight body < high := by omega
  exact ⟨rfl, fun htable => htable.insert hranked.1 hhigh⟩

end Descending

theorem upholds_descending (rank : String → Nat) (most high : Nat) :
    Upholds (Descending rank most high) (KeepsRanks rank high) where
  refl _ := ⟨rfl, id⟩
  trans h₁ h₂ := ⟨h₂.depth.trans h₁.depth, fun h => h₂.table (h₁.table h)⟩
  head := .head
  tail h _ hkeeps := h.tail.mono hkeeps
  ifThen := .ifThen
  whileDo h := absurd h Descending.not_whileDo
  again := .mono
  body := .body
  command _ hp := by
    refine ⟨?_, ?_⟩
    · rw [Machine.after_env]
      exact (scopesKept_perform hp).length_eq
    · rw [Machine.after_env, perform_procedures hp]
      exact id
  define := Descending.define
  leave h := by
    refine ⟨?_, h.table⟩
    have hdepth := h.depth
    simp only [Machine.pushScope, Machine.popScope, Environment.pushScope, Environment.popScope,
      Environment.depth, List.length_cons, List.length_tail] at hdepth ⊢
    omega

/-! ## Room for what is left -/

theorem Moment.Calls.limits {c c' : Moment} (h : c.Calls c') :
    c.steps = c'.steps + 1 ∧ c.depth ≤ c'.depth + 1 := by
  cases h <;> simp

/-- What is executed inside an execution is lower than this, if a rank counts as a procedure of full
height. -/
theorem Descending.lower_of_calls {rank : String → Nat} {most high r : Nat} {c c' : Moment}
    (h : Descending rank most high c.task.stmts c.machine)
    (hranked : Stmt.AllRanked rank r c.task.stmts) (hcall : c.Calls c') :
    ∃ r', Stmt.AllRanked rank r' c'.task.stmts ∧
      c'.task.height + r' * high < c.task.height + r * high := by
  cases hcall with
  | ifThen _ _ => exact ⟨r, hranked.1, by simp [Task.height, Stmt.height]⟩
  | whileDo => exact absurd h Descending.not_whileDo
  | @call _ _ name _ _ _ _ henter =>
    obtain ⟨p, _, hp, -, -, -, rfl⟩ := enterCall_cases henter
    obtain ⟨hbody, hhigh⟩ := h.table name p hp
    have hlower : rank name + 1 ≤ r := hranked.1
    have hroom : (rank name + 1) * high ≤ r * high := Nat.mul_le_mul_right high hlower
    rw [Nat.succ_mul] at hroom
    refine ⟨rank name, hbody, ?_⟩
    simp only [Task.height, Stmt.height]
    omega
  | turn _ _ => exact absurd h Descending.not_whileDo
  | again _ _ _ => exact absurd h Descending.not_whileDo
  | enter => exact ⟨r, hranked, by simp [Task.height]⟩
  | first =>
    refine ⟨r, Stmt.allRanked_singleton.mpr hranked.1, ?_⟩
    simp only [Task.height, Stmt.allHeight]
    omega
  | next _ =>
    refine ⟨r, hranked.2, ?_⟩
    simp only [Task.height, Stmt.allHeight]
    omega

/-- The steps and the depth that are left are enough for what is to be executed. -/
def Moment.Roomy (rank : String → Nat) (high : Nat) (c : Moment) : Prop :=
  ∃ r, Stmt.AllRanked rank r c.task.stmts ∧
    c.task.height + r * high ≤ c.steps ∧ c.task.height + r * high ≤ c.depth

namespace Moment.Roomy

variable {rank : String → Nat} {most high : Nat} {c c' : Moment}

theorem calls (h : c.Roomy rank high) (hc : Descending rank most high c.task.stmts c.machine)
    (hcall : c.Calls c') : c'.Roomy rank high := by
  obtain ⟨r, hranked, hsteps, hdepth⟩ := h
  obtain ⟨r', hranked', hlower⟩ := hc.lower_of_calls hranked hcall
  obtain ⟨hstep, hlevel⟩ := hcall.limits
  exact ⟨r', hranked', by omega, by omega⟩

theorem reaches (h : c.Roomy rank high) (hc : Descending rank most high c.task.stmts c.machine)
    (hr : c.Reaches c') : c'.Roomy rank high := by
  induction hr with
  | refl => exact h
  | tail hr hcall ih => exact ih.calls ((upholds_descending rank most high).reaches hc hr) hcall

theorem not_isLimit_of_fails {why : Halt} (h : c.Roomy rank high) (hfails : c.Fails why) :
    why.isLimit = false := by
  obtain ⟨r, -, hsteps, hdepth⟩ := h
  have hpos := c.task.height_pos
  cases hfails with
  | command hp => cases failsWith_of_perform hp <;> rfl
  | tooDeep =>
    simp only at hpos hdepth
    omega
  | outOfSteps =>
    simp only at hpos hsteps
    omega
  | _ => rfl

theorem not_isLimit_of_halted {why : Halt} {m : Machine} (h : c.Roomy rank high)
    (hc : Descending rank most high c.task.stmts c.machine) (ho : c.outcome = .halted why m) :
    why.isLimit = false := by
  obtain ⟨c', own, hr, hfails, hown⟩ := Moment.gives_of_halted ho
  have hnot := (h.reaches hc hr).not_isLimit_of_fails hfails
  rcases hown with rfl | ⟨_, s, -, -, rfl⟩
  · exact hnot
  · rw [Bool.eq_false_iff]
    intro hlimit
    have hsame := (Halt.inStatement_eq_iff hlimit).mp rfl
    rw [← hsame, hnot] at hlimit
    cases hlimit

theorem not_isLimit (h : c.Roomy rank high)
    (hc : Descending rank most high c.task.stmts c.machine) (why : Halt)
    (hwhy : c.outcome.halt? = some why) : why.isLimit = false := by
  obtain ⟨m, ho⟩ := Outcome.exists_of_halt? hwhy
  exact h.not_isLimit_of_halted hc ho

end Moment.Roomy

/-! ## Runs -/

section

variable {script : Script} {ts : List Token}

theorem descending_of_derived (h : Script.Derived [] ts script)
    (hloop : Stmt.allLoopFree script = true) (honce : (Script.defined script).Nodup)
    (hself : ∀ name parameters body, .define name parameters body ∈ script →
      name ∉ Stmt.allCalls body) (limits : Limits) (turtle : Turtle) :
    Stmt.AllRanked (Script.defined script).idxOf (Script.defined script).length script ∧
    Descending (Script.defined script).idxOf (Script.defined script).length script.height
      (Moment.ofRun limits (.fresh turtle) script).task.stmts
      (Moment.ofRun limits (.fresh turtle) script).machine := by
  have hnone : ∀ name, Declarations.arity? [] name ≠ none → name ∈ ([] : List String) :=
    fun _ hd => absurd rfl hd
  have hranked : Stmt.AllRanked (Script.defined script).idxOf (Script.defined script).length
      script := h.ranked (List.nil_append _).symm honce hnone hloop hself
  have hdepth : (Moment.ofRun limits (.fresh turtle) script).machine.env.depth = 0 := rfl
  refine ⟨hranked, ⟨_, hranked, by omega⟩, Nat.lt_succ_self _, ?_⟩
  intro name p hp
  cases hp

/-- Limits that are high enough for a run do not end it. -/
theorem Moment.Roomy.ofRun {rank : String → Nat} {most : Nat}
    (hranked : Stmt.AllRanked rank most script) {limits : Limits} (env : Environment)
    (hdepth : (most + 1) * script.height ≤ limits.depth)
    (hsteps : (most + 1) * script.height ≤ limits.steps) :
    (Moment.ofRun limits env script).Roomy rank script.height := by
  have hheight : (Moment.ofRun limits env script).task.height = script.height := rfl
  rw [Nat.succ_mul] at hdepth hsteps
  refine ⟨most, hranked, ?_, ?_⟩
  · show _ ≤ limits.steps
    omega
  · show _ ≤ limits.depth
    omega

end

/-- A parsed script without loops, in which no procedure is defined twice and none calls itself,
comes to an end. There is one end for all limits that are high enough, no limit has a part in it,
and the script itself tells which limits are. Under any limits there are never more scopes than
the script has definitions. -/
theorem run_ends_of_loopFree {limit : Nat} {text : String} {script : Script}
    (h : parseScript limit text = .ok script) (hloop : Stmt.allLoopFree script = true)
    (honce : (Script.defined script).Nodup)
    (hself : ∀ name parameters body, .define name parameters body ∈ script →
      name ∉ Stmt.allCalls body) (turtle : Turtle) :
    (∃ i stop, (∀ why, stop = some why → why.isLimit = false) ∧
      ∀ limits : Limits, ((Script.defined script).length + 1) * script.height ≤ limits.depth →
        ((Script.defined script).length + 1) * script.height ≤ limits.steps →
        (Interpreter.on (.fresh turtle)).run limits script = (i, stop)) ∧
    ∀ limits c, (Moment.ofRun limits (.fresh turtle) script).Reaches c →
      c.machine.env.depth ≤ (Script.defined script).length ∧
      c.outcome.machine.env.depth ≤ (Script.defined script).length := by
  obtain ⟨ts, -, hd, -⟩ := derived_of_parseScript h
  have hstart := fun limits => descending_of_derived hd hloop honce hself limits turtle
  constructor
  · obtain ⟨enough, henough⟩ : ∃ n, n = ((Script.defined script).length + 1) * script.height :=
      ⟨_, rfl⟩
    obtain ⟨hranked, hdescending⟩ := hstart ⟨enough, enough⟩
    have hroomy : (Moment.ofRun ⟨enough, enough⟩ (.fresh turtle) script).Roomy
        (Script.defined script).idxOf script.height :=
      .ofRun hranked _ (Nat.le_of_eq henough.symm) (Nat.le_of_eq henough.symm)
    let c := Moment.ofRun ⟨enough, enough⟩ (.fresh turtle) script
    have hnot : ∀ why, c.outcome.halt? = some why → why.isLimit = false :=
      hroomy.not_isLimit hdescending
    refine ⟨(Interpreter.ofOutcome c.outcome).1, c.outcome.halt?, hnot, ?_⟩
    intro limits hdepth hsteps
    obtain ⟨more, hmore⟩ := Nat.exists_eq_add_of_le (henough ▸ hdepth)
    have hstable := Moment.outcome_of_le (henough ▸ hsteps) more (.of_not_isLimit hnot more)
    rw [← hmore] at hstable
    rw [Interpreter.run_eq_ofOutcome, ← Interpreter.ofOutcome_snd]
    exact congrArg Interpreter.ofOutcome hstable
  · intro limits c hr
    obtain ⟨-, hdescending⟩ := hstart limits
    have hupholds := upholds_descending (Script.defined script).idxOf
      (Script.defined script).length script.height
    have hc := hupholds.reaches hdescending hr
    obtain ⟨r, -, hdepth⟩ := hc.ranked
    have hkept := (hupholds.outcome hc).depth
    exact ⟨by omega, by omega⟩

/-- `Q` calls `P` from inside a block. There are two definitions, so two scopes at most. -/
theorem run_ends_of_nested_calls :
    ∃ script, parseScript 9
        "TO P \"a IF :a [ TURN HEADING ] END TO Q IF \"TRUE [ P \"TRUE ] END Q" = .ok script ∧
      (∃ i stop, (∀ why, stop = some why → why.isLimit = false) ∧
        ∀ limits : Limits, 3 * 10 ≤ limits.depth → 3 * 10 ≤ limits.steps →
          (Interpreter.on (.fresh (.startingAt 0.0 0.0))).run limits script = (i, stop)) ∧
      ∀ limits c, (Moment.ofRun limits (.fresh (.startingAt 0.0 0.0)) script).Reaches c →
        c.machine.env.depth ≤ 2 ∧ c.outcome.machine.env.depth ≤ 2 := by
  have hparse : parseScript 9
      "TO P \"a IF :a [ TURN HEADING ] END TO Q IF \"TRUE [ P \"TRUE ] END Q" = .ok
      [.define "P" ["a"] [.ifThen (.variable "a") [.command .turn [.query .heading] none]],
        .define "Q" [] [.ifThen (.boolean true) [.call "P" [.boolean true]]],
        .call "Q" []] := by
    with_unfolding_all rfl
  refine ⟨_, hparse, run_ends_of_loopFree hparse (by decide) (by decide) ?_ _⟩
  intro name parameters body hmem
  simp only [List.mem_cons, Stmt.define.injEq, reduceCtorEq, List.not_mem_nil, or_false] at hmem
  rcases hmem with ⟨rfl, rfl, rfl⟩ | ⟨rfl, rfl, rfl⟩ <;> decide

end TurtleGraphics
