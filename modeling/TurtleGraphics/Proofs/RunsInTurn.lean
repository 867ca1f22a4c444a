import TurtleGraphics.Proofs.Drawing
import TurtleGraphics.Proofs.Limits
import TurtleGraphics.Proofs.Lockstep

/-!
# TurtleGraphics.Proofs.RunsInTurn

Two scripts in one run, and in two runs one after the other.

* `Ends.block_append_iff` : statements behind others are executed if those come to their end.
* `DrawnAlike`            : two machines in one environment that have drawn the same for a while.
* `lockstep_drawnAlike`   : they go on to do the same.
* `Interpreter.Leaves`    : what a run leaves behind, and what ended it.
* `RunsInTurn`            : the same of two runs, the second where the first one ended.
* `run_append`            : one run of both scripts leaves what the two runs do.

What a script gets from the one before it is the environment and nothing else. An interpreter keeps
its primitives too, but no statement looks at them.
-/

namespace TurtleGraphics

/-! ## Statements behind others -/

namespace Ends

variable {depth : Nat} {a b : List Stmt} {m m₁ : Machine} {o : Outcome}

theorem nil : Ends depth (.all []) m (.done m) :=
  of_succ (Outcome.halt?_done_ne _ _) 0 fun _ _ => rfl

theorem tooDeep : Ends 0 (.block a) m (.halted .tooDeep m) :=
  of_succ nofun 0 fun _ _ => rfl

theorem leave (h : Ends (depth + 1) (.block a) m o) : Ends depth (.all a) m o := by
  obtain ⟨ho, enough, h⟩ := h
  exact of_outcome (h (enough + 1) (Nat.le_succ _)) ho

/-- Statements end with the first of them, or the rest of them do behind it. -/
theorem first_or_next {s : Stmt} (h : Ends depth (.all (s :: a)) m o) :
    (∃ why m₁, o = .halted (why.inStatement s) m₁ ∧
      Ends depth (.stmt s) m (.halted why m₁)) ∨
    ∃ m₁, Ends depth (.stmt s) m (.done m₁) ∧ Ends depth (.all a) m₁ o := by
  obtain ⟨ho, enough, h⟩ := h
  have hall := h (enough + 1) (Nat.le_succ _)
  simp only [Moment.outcome, executeAll] at hall
  cases hs : execute enough depth s m with
  | halted why m₁ =>
    rw [hs] at hall
    subst hall
    refine .inl ⟨why, m₁, rfl, of_outcome hs fun hwhy => ho ?_⟩
    exact congrArg some ((Halt.inStatement_eq_iff rfl).mpr (Option.some.inj hwhy))
  | done m₁ =>
    rw [hs] at hall
    exact .inr ⟨m₁, of_outcome hs (Outcome.halt?_done_ne _ _), of_outcome hall ho⟩

theorem all_append_iff :
    Ends depth (.all (a ++ b)) m o ↔
      (∃ why m₁, o = .halted why m₁ ∧ Ends depth (.all a) m o) ∨
      ∃ m₁, Ends depth (.all a) m (.done m₁) ∧ Ends depth (.all b) m₁ o := by
  induction a generalizing m with
  | nil =>
    constructor
    · exact fun h => .inr ⟨m, nil, h⟩
    · rintro (⟨why, m₁, rfl, h⟩ | ⟨m₁, h, hb⟩)
      · cases h.unique nil
      · cases h.unique nil
        exact hb
  | cons s a ih =>
    constructor
    · intro h
      obtain ⟨why, m₁, rfl, hs⟩ | ⟨m₁, hs, hrest⟩ := h.first_or_next
      · exact .inl ⟨_, m₁, rfl, hs.first⟩
      · obtain ⟨why, m₂, rfl, ha⟩ | ⟨m₂, ha, hb⟩ := ih.mp hrest
        · exact .inl ⟨why, m₂, rfl, hs.next ha⟩
        · exact .inr ⟨m₂, hs.next ha, hb⟩
    · rintro (⟨why, m₂, rfl, h⟩ | ⟨m₂, h, hb⟩)
      · obtain ⟨why', m₁, heq, hs⟩ | ⟨m₁, hs, ha⟩ := h.first_or_next
        · rw [heq]
          exact hs.first
        · exact hs.next (ih.mpr (.inl ⟨why, m₂, rfl, ha⟩))
      · obtain ⟨why', m₁, heq, hs⟩ | ⟨m₁, hs, ha⟩ := h.first_or_next
        · cases heq
        · exact hs.next (ih.mpr (.inr ⟨m₂, ha, hb⟩))

/-- Statements behind others are executed if those come to their end, and otherwise that of those
is the end of all. -/
theorem block_append_iff :
    Ends depth (.block (a ++ b)) m o ↔
      (∃ why m₁, o = .halted why m₁ ∧ Ends depth (.block a) m o) ∨
      ∃ m₁, Ends depth (.block a) m (.done m₁) ∧ Ends depth (.block b) m₁ o := by
  cases depth with
  | zero =>
    constructor
    · intro h
      obtain rfl := h.unique tooDeep
      exact .inl ⟨.tooDeep, m, rfl, tooDeep⟩
    · rintro (⟨why, m₁, rfl, h⟩ | ⟨m₁, h, -⟩)
      · cases h.unique tooDeep
        exact tooDeep
      · cases h.unique tooDeep
  | succ depth =>
    have henter : ∀ {ss m o}, Ends (depth + 1) (.block ss) m o ↔ Ends depth (.all ss) m o :=
      ⟨leave, enter⟩
    simp only [henter]
    exact all_append_iff

end Ends

/-! ## What does not matter -/

/-- Two machines in the same environment, which behind some primitives of their own have given out
the same ones. -/
def DrawnAlike (before before' : List Primitive) (m m' : Machine) : Prop :=
  m'.env = m.env ∧ ∃ drawn, m.primitives.toList = before ++ drawn ∧
    m'.primitives.toList = before' ++ drawn

section

variable {before before' : List Primitive} {m m' : Machine}

theorem DrawnAlike.refl (m : Machine) :
    DrawnAlike m.primitives.toList m.primitives.toList m m :=
  ⟨rfl, [], by simp, by simp⟩

theorem DrawnAlike.symm (h : DrawnAlike before before' m m') : DrawnAlike before' before m' m := by
  obtain ⟨henv, drawn, hm, hm'⟩ := h
  exact ⟨henv.symm, drawn, hm', hm⟩

theorem DrawnAlike.after (h : DrawnAlike before before' m m') (env : Environment)
    (drawn : Option Primitive) :
    DrawnAlike before before' (m.after env drawn) (m'.after env drawn) := by
  obtain ⟨-, earlier, hm, hm'⟩ := h
  refine ⟨by rw [Machine.after_env, Machine.after_env], earlier ++ drawn.toList, ?_, ?_⟩
  · rw [Machine.primitives_after, hm, List.append_assoc]
  · rw [Machine.primitives_after, hm', List.append_assoc]

theorem DrawnAlike.perform (h : DrawnAlike before before' m m') (v : Verb)
    (operands : List Expr) (target : Option String) :
    Agreed Eq (fun r r' => DrawnAlike before before' (m.after r.1 r.2) (m'.after r'.1 r'.2))
      (perform m.env v operands target) (TurtleGraphics.perform m'.env v operands target) := by
  refine .of_eq ?_ ?_ (by rw [h.1])
  · exact fun _ => rfl
  · exact fun r => h.after r.1 r.2

theorem DrawnAlike.eval (h : DrawnAlike before before' m m') (e : Expr) :
    Agreed (SameFault Eq) SameDecision (e.eval m.env) (e.eval m'.env) := by
  refine .of_eq ?_ ?_ (by rw [h.1])
  · exact fun _ => rfl
  · exact fun _ => rfl

theorem DrawnAlike.define (h : DrawnAlike before before' m m') (name : String) (p : Procedure) :
    DrawnAlike before before' (m.define name p) (m'.define name p) :=
  ⟨congrArg (Environment.define · name p) h.1, h.2⟩

theorem DrawnAlike.enterCall (h : DrawnAlike before before' m m') (i : Unit) (name : String)
    (arguments : List Expr) :
    Agreed (SameFault Eq) (SameEntry (fun _ => Eq) (fun _ => DrawnAlike before before') i m m')
      (enterCall m.env name arguments) (TurtleGraphics.enterCall m'.env name arguments) := by
  refine .of_eq ?_ ?_ (by rw [h.1])
  · exact fun _ => rfl
  · rintro ⟨scope, body⟩
    refine ⟨(), List.forall₂_refl body, ?_, fun _ _ hpop => ?_⟩
    · exact ⟨congrArg (Environment.pushScope · scope) h.1, h.2⟩
    · exact ⟨congrArg Environment.popScope hpop.1, hpop.2⟩

/-- Machines that differ in what they gave out before do the same. -/
theorem lockstep_drawnAlike (before before' : List Primitive) :
    Lockstep (fun _ : Unit => Eq) (fun _ => DrawnAlike before before') Eq :=
  .of_eq DrawnAlike.perform DrawnAlike.eval DrawnAlike.define
    fun h name arguments => h.enterCall _ name arguments

theorem DrawnAlike.ends (h : DrawnAlike before before' m m') {depth : Nat} {ss : List Stmt}
    {o : Outcome} (hends : Ends depth (.block ss) m o) :
    ∃ o', Ends depth (.block ss) m' o' ∧ o'.halt? = o.halt? ∧
      DrawnAlike before before' o.machine o'.machine := by
  obtain ⟨ho, enough, hends⟩ := hends
  have halike := (lockstep_drawnAlike before before').below enough () depth (.block ss) (.block ss)
    m m' (.block (List.forall₂_refl ss)) h
  rw [hends enough (Nat.le_refl _)] at halike
  exact ⟨_, .of_outcome rfl (halike.halt?_eq ▸ ho), halike.halt?_eq, halike.machine⟩

end

/-! ## Runs -/

/-- A run that has steps enough leaves this environment and these primitives, and was ended so. -/
def Interpreter.Leaves (env : Environment) (depth : Nat) (script : Script) (env' : Environment)
    (drawn : List Primitive) (stop : Option Halt) : Prop :=
  ∃ i, Finishes env depth script i stop ∧ i.env = env' ∧ i.primitives = drawn

/-- A run of one script, and if that comes to its end a run of another one by a new interpreter in
the environment that the first has left. The first primitive of the second run is left out. -/
inductive RunsInTurn (env : Environment) (depth : Nat) (a b : Script) :
    Environment → List Primitive → Option Halt → Prop where
  | stopped {env' : Environment} {drawn : List Primitive} {why : Halt} :
      Interpreter.Leaves env depth a env' drawn (some why) →
      RunsInTurn env depth a b env' drawn (some why)
  | both {env₁ env₂ : Environment} {drawn₁ drawn₂ : List Primitive} {stop : Option Halt} :
      Interpreter.Leaves env depth a env₁ drawn₁ none →
      Interpreter.Leaves env₁ depth b env₂ drawn₂ stop →
      RunsInTurn env depth a b env₂ (drawn₁ ++ drawn₂.tail) stop

namespace Interpreter

variable {env env' : Environment} {depth : Nat} {script : Script} {drawn : List Primitive}
  {stop : Option Halt}

theorem ofOutcome_fst (o : Outcome) :
    (ofOutcome o).1.env = o.machine.env ∧
      (ofOutcome o).1.primitives = o.machine.primitives.toList := by
  cases o <;> exact ⟨rfl, rfl⟩

theorem leaves_iff :
    Leaves env depth script env' drawn stop ↔
      ∃ o, Ends depth (.block script) (started (.on env)) o ∧ o.halt? = stop ∧
        o.machine.env = env' ∧ o.machine.primitives.toList = drawn := by
  constructor
  · rintro ⟨i, hi, rfl, rfl⟩
    obtain ⟨o, ho, hout⟩ := finishes_iff.mp hi
    obtain ⟨henv, hdrawn⟩ := ofOutcome_fst o
    rw [hout] at henv hdrawn
    refine ⟨o, ho, ?_, henv.symm, hdrawn.symm⟩
    rw [← ofOutcome_snd, hout]
  · rintro ⟨o, ho, rfl, rfl, rfl⟩
    refine ⟨(ofOutcome o).1, finishes_iff.mpr ⟨o, ho, ?_⟩, ofOutcome_fst o⟩
    rw [← ofOutcome_snd]

/-- A run starts with the place of the turtle. -/
theorem Leaves.head? (h : Leaves env depth script env' drawn stop) :
    drawn.head? = some (.moveTo env.turtle.x env.turtle.y) := by
  obtain ⟨o, ho, -, -, rfl⟩ := leaves_iff.mp h
  obtain ⟨-, -, -, -, more, hmore, -⟩ := (DrawnAlike.refl (started (.on env))).ends ho
  rw [hmore]
  rfl

end Interpreter

/-- A machine in the middle of a run is like one at the start of a run in its environment. -/
theorem drawnAlike_started (m : Machine) :
    DrawnAlike m.primitives.toList [.moveTo m.env.turtle.x m.env.turtle.y] m
      (Interpreter.started (.on m.env)) :=
  ⟨rfl, [], by simp, rfl⟩

/-- Two scripts that are run as one do what they do in two runs, the second by a new interpreter in
the environment that the first has left. They leave the same environment, which is the turtle, the
variables, the scopes and the procedures, and they end in the same way, with the same error if with
any. The primitives are those of the two runs but for the one at the seam, with which every run
starts and which is the place of the turtle. -/
theorem run_append (env : Environment) (depth : Nat) (a b : Script) :
    (∀ env' drawn stop,
      Interpreter.Leaves env depth (a ++ b) env' drawn stop ↔
        RunsInTurn env depth a b env' drawn stop) ∧
    ∀ env₁ env₂ drawn stop, Interpreter.Leaves env₁ depth b env₂ drawn stop →
      drawn.head? = some (.moveTo env₁.turtle.x env₁.turtle.y) := by
  refine ⟨fun env' drawn stop => ⟨fun h => ?_, fun h => ?_⟩, fun _ _ _ _ h => h.head?⟩
  · obtain ⟨o, ho, rfl, rfl, rfl⟩ := Interpreter.leaves_iff.mp h
    obtain ⟨why, m₁, rfl, ha⟩ | ⟨m₁, ha, hb⟩ := Ends.block_append_iff.mp ho
    · exact .stopped (Interpreter.leaves_iff.mpr ⟨_, ha, rfl, rfl, rfl⟩)
    · obtain ⟨o', hb', hstop, henv, drawn, hdrawn, hdrawn'⟩ := (drawnAlike_started m₁).ends hb
      have hfirst := Interpreter.leaves_iff.mpr ⟨_, ha, rfl, rfl, rfl⟩
      have hsecond := Interpreter.leaves_iff.mpr ⟨_, hb', hstop, henv, hdrawn'⟩
      rw [hdrawn]
      exact .both hfirst hsecond
  · cases h with
    | stopped hfirst =>
      obtain ⟨o, ha, hwhy, rfl, rfl⟩ := Interpreter.leaves_iff.mp hfirst
      obtain ⟨m₁, rfl⟩ := Outcome.exists_of_halt? hwhy
      have hall := (Ends.block_append_iff (b := b)).mpr (.inl ⟨_, m₁, rfl, ha⟩)
      exact Interpreter.leaves_iff.mpr ⟨_, hall, hwhy, rfl, rfl⟩
    | both hfirst hsecond =>
      obtain ⟨o, ha, hnone, rfl, rfl⟩ := Interpreter.leaves_iff.mp hfirst
      cases o with
      | halted why m₁ => cases hnone
      | done m₁ =>
        obtain ⟨o', hb', rfl, rfl, rfl⟩ := Interpreter.leaves_iff.mp hsecond
        obtain ⟨o, hb, hstop, henv, drawn, hdrawn', hdrawn⟩ :=
          (drawnAlike_started m₁).symm.ends hb'
        have hall := Ends.block_append_iff.mpr (.inr ⟨m₁, ha, hb⟩)
        refine Interpreter.leaves_iff.mpr ⟨o, hall, hstop, henv, ?_⟩
        rw [hdrawn, hdrawn']
        rfl

/-- The second script calls a procedure of the first one, and fails behind that. -/
theorem run_append_failing :
    ∃ env', Interpreter.Leaves (.fresh (.startingAt 0.0 0.0)) 9
      ([.define "P" [] [.command .penUp [] none]] ++ [.call "P" [], .call "Q" []]) env'
      [.moveTo 0.0 0.0, .penState false] (some (.error ⟨.undefinedProcedure "Q", some "Q"⟩)) := by
  let env : Environment := .fresh (.startingAt 0.0 0.0)
  let first := (Interpreter.on env).run ⟨9, 99⟩ [.define "P" [] [.command .penUp [] none]]
  let second := (Interpreter.on first.1.env).run ⟨9, 99⟩ [.call "P" [], .call "Q" []]
  have hfirst : first = (first.1, none) := rfl
  have hsecond : second = (second.1, some (.error ⟨.undefinedProcedure "Q", some "Q"⟩)) := rfl
  have hleft : Interpreter.Leaves env 9 _ first.1.env [.moveTo 0.0 0.0] none :=
    ⟨_, Interpreter.finishes_of_run hfirst nofun, rfl, rfl⟩
  have hright : Interpreter.Leaves first.1.env 9 _ second.1.env
      [.moveTo 0.0 0.0, .penState false] _ :=
    ⟨_, Interpreter.finishes_of_run hsecond nofun, rfl, rfl⟩
  exact ⟨_, ((run_append env 9 _ _).1 _ _ _).mpr (.both hleft hright)⟩

end TurtleGraphics
