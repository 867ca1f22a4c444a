import TurtleGraphics.Proofs.Hidden
import TurtleGraphics.Proofs.Limits

/-!
# TurtleGraphics.Proofs.PenErasure

The pen never influences the computation.

* `Stmt.erasePens`   : statements without the commands that lift and lower the pen, at any depth.
* `SamePenless`      : statements that differ in such commands.
* `PenAlike.skip`    : such commands do not hold up the statements after them.
* `Ends.penless`     : what one execution does, an execution that differs in such commands does too.
* `run_erasePens`    : a script and the script without these commands do the same, but for the pen.

The two executions do not keep in step, as one has commands that the other has not. So what is
compared are executions with steps enough. Neither script is the better one for the comparison: each
may have such commands where the other has none. Therefore one direction gives both.
-/

namespace TurtleGraphics

/-! ## Erasure -/

/-- The commands that lift or lower the pen. -/
def Stmt.setsPen : Stmt → Bool
  | .command .penUp _ _ => true
  | .command .penDown _ _ => true
  | _ => false

mutual

/-- A statement with no command for the pen in its block or body. -/
def Stmt.erasePen : Stmt → Stmt
  | .ifThen c block => .ifThen c (Stmt.erasePens block)
  | .whileDo c block => .whileDo c (Stmt.erasePens block)
  | .define name parameters body => .define name parameters (Stmt.erasePens body)
  | s => s

/-- Statements without the commands for the pen. -/
def Stmt.erasePens : List Stmt → List Stmt
  | [] => []
  | s :: rest => if s.setsPen then Stmt.erasePens rest else s.erasePen :: Stmt.erasePens rest

end

/-- Statements that differ in commands for the pen. -/
def SamePenless (ss ss' : List Stmt) : Prop := Stmt.erasePens ss' = Stmt.erasePens ss

theorem Stmt.setsPen_erasePen (s : Stmt) : s.erasePen.setsPen = s.setsPen := by
  cases s <;> rfl

theorem Stmt.summary_erasePen (s : Stmt) : s.erasePen.summary = s.summary := by
  cases s <;> rfl

/-- A statement is shown without its block, and so an error is named alike. -/
theorem Halt.inStatement_of_erasePen {s s' : Stmt} (h : s'.erasePen = s.erasePen) (why : Halt) :
    why.inStatement s' = why.inStatement s := by
  have hsummary : s'.summary = s.summary := by
    rw [← s.summary_erasePen, ← s'.summary_erasePen, h]
  unfold Halt.inStatement
  split
  · simp only [hsummary]
  · rfl

mutual

theorem Stmt.erasePen_erasePen (s : Stmt) : s.erasePen.erasePen = s.erasePen := by
  cases s with
  | ifThen c block => rw [erasePen, erasePen, Stmt.erasePens_erasePens block]
  | whileDo c block => rw [erasePen, erasePen, Stmt.erasePens_erasePens block]
  | define name parameters body => rw [erasePen, erasePen, Stmt.erasePens_erasePens body]
  | _ => rfl

theorem Stmt.erasePens_erasePens (ss : List Stmt) : erasePens (erasePens ss) = erasePens ss := by
  cases ss with
  | nil => rfl
  | cons s rest =>
    rw [erasePens]
    split
    · exact Stmt.erasePens_erasePens rest
    · rename_i hs
      rw [erasePens, setsPen_erasePen, if_neg hs, Stmt.erasePen_erasePen s,
        Stmt.erasePens_erasePens rest]

end

theorem Stmt.erasePens_of_setsPen {s : Stmt} (h : s.setsPen = true) (rest : List Stmt) :
    Stmt.erasePens (s :: rest) = Stmt.erasePens rest := by
  rw [erasePens, if_pos h]

theorem Stmt.erasePens_of_not_setsPen {s : Stmt} (h : ¬s.setsPen = true) (rest : List Stmt) :
    Stmt.erasePens (s :: rest) = s.erasePen :: Stmt.erasePens rest := by
  rw [erasePens, if_neg h]

/-- Up to the first statement that is left, all statements are commands for the pen. -/
theorem Stmt.erasePens_eq_cons {ss ts : List Stmt} {t : Stmt} (h : Stmt.erasePens ss = t :: ts) :
    ∃ pens s rest, ss = pens ++ s :: rest ∧ (∀ p ∈ pens, p.setsPen = true) ∧ s.erasePen = t ∧
      Stmt.erasePens rest = ts := by
  induction ss with
  | nil => cases h
  | cons s rest ih =>
    rw [erasePens] at h
    split at h
    · rename_i hs
      obtain ⟨pens, s', rest', rfl, hpens, hs', hrest'⟩ := ih h
      exact ⟨s :: pens, s', rest', rfl, List.forall_mem_cons.mpr ⟨hs, hpens⟩, hs', hrest'⟩
    · cases h
      exact ⟨[], s, rest, rfl, nofun, rfl, rfl⟩

theorem Stmt.erasePens_eq_nil {ss : List Stmt} (h : Stmt.erasePens ss = []) :
    ∀ p ∈ ss, p.setsPen = true := by
  induction ss with
  | nil => exact nofun
  | cons s rest ih =>
    rw [erasePens] at h
    split at h
    · rename_i hs
      exact List.forall_mem_cons.mpr ⟨hs, ih h⟩
    · cases h

/-! ## Commands for the pen -/

/-- Machines that have come equally far, in scripts that differ in commands for the pen. -/
abbrev PenAlike : Machine → Machine → Prop := Masked .pen SamePenless

/-- A machine with its pen set. -/
def Machine.setPen (m : Machine) (down : Bool) : Machine :=
  m.after (TurtleGraphics.setPen m.env down).1 (TurtleGraphics.setPen m.env down).2

theorem Machine.withoutPen_setPen (m : Machine) (down : Bool) :
    (m.setPen down).primitives.toList.filterMap Primitive.withoutPen =
      m.primitives.toList.filterMap Primitive.withoutPen := by
  have hpush : (m.setPen down).primitives = m.primitives.push (.penState down) := rfl
  rw [hpush, Array.toList_push, List.filterMap_append]
  exact List.append_nil _

theorem execute_of_setsPen {s : Stmt} (h : s.setsPen = true) :
    ∃ down, ∀ steps depth m, execute (steps + 1) depth s m = .done (m.setPen down) := by
  unfold Stmt.setsPen at h
  split at h
  · exact ⟨false, fun _ _ _ => rfl⟩
  · exact ⟨true, fun _ _ _ => rfl⟩
  · cases h

section

variable {m m' : Machine} (h : PenAlike m m')

include h

theorem PenAlike.setPen_left (down : Bool) : PenAlike (m.setPen down) m' :=
  ⟨h.turtle, h.globals, h.scopes, h.procedures, h.primitives.trans (m.withoutPen_setPen down).symm⟩

theorem PenAlike.setPen_right (down : Bool) : PenAlike m (m'.setPen down) :=
  ⟨h.turtle, h.globals, h.scopes, h.procedures, (m'.withoutPen_setPen down).trans h.primitives⟩

/-- Commands for the pen before other statements do not hold these up. -/
theorem PenAlike.skip {pens : List Stmt} (hpens : ∀ p ∈ pens, p.setsPen = true) (depth : Nat) :
    ∃ m₁, PenAlike m m₁ ∧
      ∀ ss o, Ends depth (.all ss) m₁ o → Ends depth (.all (pens ++ ss)) m' o := by
  induction pens generalizing m' with
  | nil => exact ⟨m', h, fun _ _ he => he⟩
  | cons p pens ih =>
    obtain ⟨hp, hpens⟩ := List.forall_mem_cons.mp hpens
    obtain ⟨down, hdown⟩ := execute_of_setsPen hp
    obtain ⟨m₁, hm₁, hends⟩ := ih (h.setPen_right down) hpens
    have hfirst : Ends depth (.stmt p) m' (.done (m'.setPen down)) :=
      .of_succ nofun 0 fun steps _ => hdown steps depth m'
    exact ⟨m₁, hm₁, fun ss o he => hfirst.next (hends ss o he)⟩

end

/-! ## Executions -/

/-- Two tasks of the same kind that differ in commands for the pen. -/
inductive Task.Penless : Task → Task → Prop where
  | stmt {s s' : Stmt} : s'.erasePen = s.erasePen → Penless (.stmt s) (.stmt s')
  | loop {e : Expr} {block block' : List Stmt} : SamePenless block block' →
      Penless (.loop e block) (.loop e block')
  | block {ss ss' : List Stmt} : SamePenless ss ss' → Penless (.block ss) (.block ss')
  | all {ss ss' : List Stmt} : SamePenless ss ss' → Penless (.all ss) (.all ss')

/-- An execution that has come to this end can be matched by one of this task. -/
def Matches (depth : Nat) (task : Task) (m : Machine) (o : Outcome) : Prop :=
  o.halt? ≠ some .outOfSteps →
    ∃ o', Ends depth task m o' ∧ Outcome.Alike PenAlike Eq o o'

/-- With so many steps, what an execution does is done by all that differ from it in commands for
the pen. -/
def PenFreeBelow (steps : Nat) : Prop :=
  ∀ depth task task' m m', Task.Penless task task' → PenAlike m m' →
    Matches depth task' m' (Moment.outcome ⟨steps, depth, task, m⟩)

section

variable {steps depth : Nat} {m m' : Machine}

/-- An end after one step is matched by an end after one step. -/
theorem Matches.of_step {task : Task} {o o' : Outcome} (halike : Outcome.Alike PenAlike Eq o o')
    (h : ∀ steps, Moment.outcome ⟨steps + 1, depth, task, m'⟩ = o') : Matches depth task m' o := by
  intro ho
  rw [← halike.halt?_eq] at ho
  exact ⟨o', .of_succ ho 0 fun steps _ => h steps, halike⟩

theorem PenAlike.eval (hm : PenAlike m m') (e : Expr) : e.eval m'.env = e.eval m.env :=
  Masked.eval hm fun q _ => Mask.pen_shows q

theorem execute_penless (ih : PenFreeBelow steps) {s s' : Stmt} (hs : s'.erasePen = s.erasePen)
    (hm : PenAlike m m') : Matches depth (.stmt s') m' (execute (steps + 1) depth s m) := by
  cases s with
  | command v operands target =>
    cases s' <;> cases hs
    have hafter := hm.after Mask.steerable_pen v operands target fun q _ => Mask.pen_shows q
    obtain ⟨why, _, hr, hr', rfl⟩ | ⟨_, _, hr, hr', hdone⟩ := hafter.error_or_ok
    · simp only [execute, hr]
      exact .of_step (.halted rfl hm) fun _ => by simp only [Moment.outcome, execute, hr']
    · simp only [execute, hr]
      exact .of_step (.done hdone) fun _ => by simp only [Moment.outcome, execute, hr']
  | ifThen e block =>
    cases s' <;> try cases hs
    rename_i e' block'
    simp only [Stmt.erasePen, Stmt.ifThen.injEq] at hs
    obtain ⟨rfl, hblock⟩ := hs
    have heval := hm.eval e'
    cases he : e'.eval m.env with
    | error f =>
      rw [he] at heval
      simp only [execute, he]
      exact .of_step (.halted rfl hm) fun _ => by simp only [Moment.outcome, execute, heval]
    | ok v =>
      rw [he] at heval
      simp only [execute, he]
      split
      · rename_i hv
        intro ho
        obtain ⟨o, hends, halike⟩ := ih depth _ _ m m' (.block hblock) hm ho
        exact ⟨o, hends.ifThen heval hv, halike⟩
      · rename_i hv
        exact .of_step (.done hm) fun _ => by
          simp only [Moment.outcome, execute, heval, if_neg hv]
  | whileDo e block =>
    cases s' <;> try cases hs
    rename_i e' block'
    simp only [Stmt.erasePen, Stmt.whileDo.injEq] at hs
    obtain ⟨rfl, hblock⟩ := hs
    intro ho
    obtain ⟨o, hends, halike⟩ := ih depth _ _ m m' (.loop hblock) hm ho
    exact ⟨o, hends.whileDo, halike⟩
  | define name parameters body =>
    cases s' <;> try cases hs
    simp only [Stmt.erasePen, Stmt.define.injEq] at hs
    obtain ⟨rfl, rfl, hbody⟩ := hs
    exact .of_step (.done (hm.define _ _ hbody)) fun _ => rfl
  | call name arguments =>
    cases s' <;> cases hs
    have hentered := hm.enterCall name arguments fun q _ => Mask.pen_shows q
    obtain ⟨f, _, hr, hr', rfl⟩ | ⟨⟨scope, body⟩, ⟨_, body'⟩, hr, hr', rfl, hbody⟩ :=
      hentered.error_or_ok
    · simp only [execute, hr]
      exact .of_step (.halted rfl hm) fun _ => by simp only [Moment.outcome, execute, hr']
    · intro ho
      simp only [execute, hr] at ho ⊢
      rw [Outcome.halt?_popScope] at ho
      obtain ⟨o, hends, halike⟩ := ih depth _ _ _ _ (.block hbody) (hm.push _) ho
      exact ⟨o.popScope, hends.call hr', halike.popScope fun _ _ h => h.pop⟩
  | foreign shape =>
    cases s' <;> cases hs
    exact .of_step (.halted rfl hm) fun _ => rfl

theorem executeLoop_penless (ih : PenFreeBelow steps) {e : Expr} {block block' : List Stmt}
    (hblock : SamePenless block block') (hm : PenAlike m m') :
    Matches depth (.loop e block') m' (executeLoop (steps + 1) depth e block m) := by
  have heval := hm.eval e
  cases he : e.eval m.env with
  | error f =>
    rw [he] at heval
    simp only [executeLoop, he]
    exact .of_step (.halted rfl hm) fun _ => by simp only [Moment.outcome, executeLoop, heval]
  | ok v =>
    rw [he] at heval
    simp only [executeLoop, he]
    split
    · rename_i hv
      have hturn := ih depth _ _ m m' (.block hblock) hm
      simp only [Moment.outcome] at hturn
      cases hb : executeBlock steps depth block m with
      | halted why m₁ =>
        rw [hb] at hturn
        intro ho
        obtain ⟨o, hends, halike⟩ := hturn ho
        cases halike with
        | halted hwhy hm₁ => exact ⟨_, hends.turn heval hv, .halted hwhy hm₁⟩
      | done m₁ =>
        rw [hb] at hturn
        obtain ⟨o, hends, halike⟩ := hturn (Outcome.halt?_done_ne _ _)
        cases halike with
        | done hm₁ =>
          intro ho
          obtain ⟨o, hrest, halike⟩ := ih depth _ _ m₁ _ (.loop hblock) hm₁ ho
          exact ⟨o, hends.again heval hv hrest, halike⟩
    · rename_i hv
      exact .of_step (.done hm) fun _ => by
        simp only [Moment.outcome, executeLoop, heval, if_neg hv]

theorem executeAll_penless (ih : PenFreeBelow steps) {ss ss' : List Stmt}
    (hss : SamePenless ss ss') (hm : PenAlike m m') :
    Matches depth (.all ss') m' (executeAll (steps + 1) depth ss m) := by
  cases ss with
  | nil =>
    -- All that is left on the other side are commands for the pen.
    obtain ⟨m₁, hm₁, hends⟩ := hm.skip (Stmt.erasePens_eq_nil hss) depth
    have hnil : Ends depth (.all []) m₁ (.done m₁) :=
      .of_succ (Outcome.halt?_done_ne _ _) 0 fun _ _ => rfl
    have hlast := hends [] _ hnil
    rw [List.append_nil] at hlast
    exact fun _ => ⟨_, hlast, .done hm₁⟩
  | cons s rest =>
    by_cases hpen : s.setsPen = true
    · -- The command is behind on the other side, or has no match there.
      obtain ⟨down, hdown⟩ := execute_of_setsPen hpen
      rw [SamePenless, Stmt.erasePens_of_setsPen hpen] at hss
      cases steps with
      | zero => exact fun ho => absurd rfl ho
      | succ steps =>
        simp only [executeAll, hdown]
        exact ih depth _ _ _ m' (.all hss) (hm.setPen_left down)
    · rw [SamePenless, Stmt.erasePens_of_not_setsPen hpen] at hss
      obtain ⟨pens, s', rest', rfl, hpens, hs, hrest⟩ := Stmt.erasePens_eq_cons hss
      obtain ⟨m₁', hm₁, hskip⟩ := hm.skip hpens depth
      have hfirst := ih depth _ _ m m₁' (.stmt hs) hm₁
      simp only [Moment.outcome] at hfirst
      simp only [executeAll]
      cases ho : execute steps depth s m with
      | halted why m₂ =>
        rw [ho] at hfirst
        intro hwhy
        have hinner : (Outcome.halted why m₂).halt? ≠ some .outOfSteps := by
          intro hsame
          exact hwhy (congrArg some ((Halt.inStatement_eq_iff rfl).mpr (Option.some.inj hsame)))
        obtain ⟨o, hends, halike⟩ := hfirst hinner
        cases halike with
        | halted hsame hm₂ =>
          subst hsame
          have hlast : Ends depth (.all (pens ++ s' :: rest')) m' _ := hskip _ _ hends.first
          rw [Halt.inStatement_of_erasePen hs] at hlast
          exact ⟨_, hlast, .halted rfl hm₂⟩
      | done m₂ =>
        rw [ho] at hfirst
        obtain ⟨o, hends, halike⟩ := hfirst (Outcome.halt?_done_ne _ _)
        cases halike with
        | done hm₂ =>
          intro hlast
          obtain ⟨o, hafter, halike⟩ := ih depth _ _ m₂ _ (.all hrest) hm₂ hlast
          exact ⟨o, hskip _ _ (hends.next hafter), halike⟩

theorem penFreeBelow (steps : Nat) : PenFreeBelow steps := by
  induction steps with
  | zero =>
    intro depth task task' m m' _ _ ho
    cases task <;> exact absurd rfl ho
  | succ steps ih =>
    intro depth task task' m m' htask hm
    cases htask with
    | stmt hs => exact execute_penless ih hs hm
    | loop hblock => exact executeLoop_penless ih hblock hm
    | block hss =>
      cases depth with
      | zero => exact .of_step (.halted rfl hm) fun _ => rfl
      | succ depth =>
        intro ho
        obtain ⟨o, hends, halike⟩ := ih depth _ _ m m' (.all hss) hm ho
        exact ⟨o, hends.enter, halike⟩
    | all hss => exact executeAll_penless ih hss hm

/-- What one execution does, an execution that differs in commands for the pen does too. -/
theorem Ends.penless {task task' : Task} {o : Outcome} (h : Ends depth task m o)
    (htask : task.Penless task') (hm : PenAlike m m') :
    ∃ o', Ends depth task' m' o' ∧ Outcome.Alike PenAlike Eq o o' := by
  obtain ⟨ho, enough, hends⟩ := h
  have hlast := hends enough (Nat.le_refl _)
  have hmatch := penFreeBelow enough depth task task' m m' htask hm
  rw [hlast] at hmatch
  exact hmatch ho

end

/-! ## Runs -/

/-- The same variables, the same turtle but for the pen, and the same primitives with all lines
taken for moves. -/
structure Interpreter.SameButPen (i i' : Interpreter) : Prop where
  globals : i'.env.globals = i.env.globals
  turtle : i'.env.turtle.withoutPen = i.env.turtle.withoutPen
  primitives : i'.primitives.filterMap Primitive.withoutPen =
    i.primitives.filterMap Primitive.withoutPen

theorem Interpreter.SameButPen.of_alike {o o' : Outcome} (h : Outcome.Alike PenAlike Eq o o') :
    (ofOutcome o).1.SameButPen (ofOutcome o').1 ∧ (ofOutcome o').2 = (ofOutcome o).2 := by
  cases h with
  | done hm => exact ⟨⟨hm.globals, hm.turtle, hm.primitives⟩, rfl⟩
  | halted hwhy hm =>
    subst hwhy
    exact ⟨⟨hm.globals, hm.turtle, hm.primitives⟩, rfl⟩

theorem Interpreter.Finishes.penless {env : Environment} {depth : Nat} {script script' : Script}
    {i : Interpreter} {stop : Option Halt} (h : Finishes env depth script i stop)
    (henv : env.procedures = .empty) (hscript : SamePenless script script') :
    ∃ i', Finishes env depth script' i' stop ∧ i.SameButPen i' := by
  obtain ⟨o, hends, hi⟩ := finishes_iff.mp h
  have hstart : PenAlike (started (.on env)) (started (.on env)) := by
    refine ⟨rfl, rfl, rfl, fun name => ?_, rfl⟩
    simp only [started, Machine.emit, Machine.on, henv]
    exact .none
  obtain ⟨o', hends', halike⟩ := hends.penless (.block hscript) hstart
  obtain ⟨hsame, hstop⟩ := SameButPen.of_alike halike
  rw [hi] at hsame hstop
  exact ⟨(ofOutcome o').1, finishes_iff.mpr ⟨o', hends', Prod.ext rfl hstop⟩, hsame⟩

/-- A script and the script without its commands for the pen, run in the same environment with no
procedures, both finish or neither does, as far as blocks and calls may be nested. They finish in
the same way: with the same error if with any, the same variables and the same turtle but for its
pen, after the same walks. -/
theorem run_erasePens {env : Environment} (henv : env.procedures = .empty) (depth : Nat)
    (script : Script) (stop : Option Halt) :
    (∀ i, Interpreter.Finishes env depth script i stop →
      ∃ i', Interpreter.Finishes env depth (Stmt.erasePens script) i' stop ∧ i.SameButPen i') ∧
    ∀ i', Interpreter.Finishes env depth (Stmt.erasePens script) i' stop →
      ∃ i, Interpreter.Finishes env depth script i stop ∧ i.SameButPen i' := by
  constructor
  · intro i h
    exact h.penless henv (Stmt.erasePens_erasePens script)
  · intro i' h
    obtain ⟨i, hi, hglobals, hturtle, hprimitives⟩ :=
      h.penless henv (Stmt.erasePens_erasePens script).symm
    exact ⟨i, hi, hglobals.symm, hturtle.symm, hprimitives.symm⟩

/-- The body of `P` becomes empty, and the block has one statement where it had two. -/
theorem run_erasePens_in_body :
    ∃ i', Interpreter.Finishes (.fresh (.startingAt 0.0 0.0)) 9
        [.define "P" [] [], .ifThen (.boolean true) [.call "P" []],
          .command .make [.boolean true] (some "x")] i' none ∧
      i'.env.globals = ⟨[(some "x", .truth true)]⟩ := by
  let script : Script := [.define "P" [] [.command .penDown [] none],
    .ifThen (.boolean true) [.command .penUp [] none, .call "P" []],
    .command .make [.boolean true] (some "x")]
  let here := (Interpreter.on (.fresh (.startingAt 0.0 0.0))).run ⟨9, 99⟩ script
  have hrun : here = (here.1, none) := rfl
  have hfinishes := Interpreter.finishes_of_run hrun nofun
  obtain ⟨i', hi', hsame⟩ := (run_erasePens rfl 9 script none).1 _ hfinishes
  exact ⟨i', hi', hsame.globals⟩

end TurtleGraphics
