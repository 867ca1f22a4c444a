import TurtleGraphics.Proofs.RunsInTurn

/-!
# TurtleGraphics.Proofs.RunsOnce

An interpreter runs once, however often it is called and whatever it is called with.

* `Interpreter.ready`   : an interpreter that has not run anything.
* `Interpreter.Returns` : how a call ends that may take as many steps as it needs.
* `Interpreter.Over`    : the run is over, and what ended it is on record.
* `Interpreter.Session` : calls one after the other, each with its answer and what it leaves.
* `Over.run`, `over_of_returns` : what one call does to an interpreter whose run is over, and to one
  that is ready.
* `session_runs_once`   : so the first call of a session runs and all others are refused.

A run is over whether it came to its end, failed by an error of the script or by something else, or
met the limit on its depth. A call that would need more steps than any number does not return, and
no session goes on behind it.
-/

namespace TurtleGraphics

namespace Interpreter

/-- An interpreter that has not run anything, on a machine that may have been used before. -/
def ready (m : Machine) : Interpreter := ⟨m, .running, none⟩

/-- What an interpreter answers when its run is over. -/
def refusal (status : Status) : Halt := .ofFault (.alreadyFinished status)

/-- A call ends so with as many steps as it needs, or with more. -/
def Returns (i : Interpreter) (depth : Nat) (script : Script) (i' : Interpreter)
    (stop : Option Halt) : Prop :=
  stop ≠ some .outOfSteps ∧
    ∃ enough, ∀ steps, enough ≤ steps → i.run ⟨depth, steps⟩ script = (i', stop)

/-- The run is over. Nothing is on record as its failure if it came to its end, and otherwise
exactly what ended it. -/
inductive Over (i : Interpreter) : Option Halt → Prop where
  | success : i.status = .haltedSuccess → i.failure = none → Over i none
  | error {why : Halt} : i.status = .haltedError → i.failure = some why → Over i (some why)

/-- Calls of one interpreter, each of which returns, with the answers and with the interpreter as
each call has left it. -/
inductive Session (depth : Nat) :
    Interpreter → List Script → List (Interpreter × Option Halt) → Prop where
  | nil {i : Interpreter} : Session depth i [] []
  | cons {i i₁ : Interpreter} {script : Script} {stop : Option Halt} {rest : List Script}
      {answers : List (Interpreter × Option Halt)} : i.Returns depth script i₁ stop →
      Session depth i₁ rest answers → Session depth i (script :: rest) ((i₁, stop) :: answers)

/-! ## One call -/

variable {i i' : Interpreter} {m : Machine} {depth : Nat} {script : Script} {stop : Option Halt}

theorem ready_run (m : Machine) (limits : Limits) (script : Script) :
    (ready m).run limits script =
      ofOutcome (Moment.outcome ⟨limits.steps, limits.depth, .block script, started m⟩) := by
  simp only [run, ready, Moment.outcome, Machine.execute]
  split <;> rename_i ho <;> rw [ho] <;> rfl

theorem over_ofOutcome (o : Outcome) : (ofOutcome o).1.Over (ofOutcome o).2 := by
  cases o with
  | done m => exact .success rfl rfl
  | halted why m => exact .error rfl rfl

theorem Returns.unique {i₁ i₂ : Interpreter} {stop₁ stop₂ : Option Halt}
    (h₁ : i.Returns depth script i₁ stop₁) (h₂ : i.Returns depth script i₂ stop₂) :
    (i₁, stop₁) = (i₂, stop₂) := by
  obtain ⟨-, enough₁, hrun₁⟩ := h₁
  obtain ⟨-, enough₂, hrun₂⟩ := h₂
  rw [← hrun₁ _ (Nat.le_max_left enough₁ enough₂), hrun₂ _ (Nat.le_max_right enough₁ enough₂)]

theorem Returns.of_run (h : ∀ limits, i.run limits script = (i', stop))
    (hstop : stop ≠ some .outOfSteps) (depth : Nat) : i.Returns depth script i' stop :=
  ⟨hstop, 0, fun _ _ => h _⟩

/-- The run of an interpreter that is ready is over behind the call. The primitives start with those
given out before and the place of the turtle, however early the run was ended. -/
theorem over_of_returns (h : (ready m).Returns depth script i stop) :
    i.Over stop ∧ (started m).primitives.toList <+: i.primitives := by
  obtain ⟨-, enough, hrun⟩ := h
  have hout := hrun enough (Nat.le_refl _)
  rw [ready_run] at hout
  generalize ho : Moment.outcome ⟨enough, depth, .block script, started m⟩ = o at hout
  have hover := over_ofOutcome o
  have hdrawn := (ofOutcome_fst o).2
  have hfirst : (started m).primitives.toList <+: o.machine.primitives.toList := by
    rw [← ho]
    exact upholds_appends.outcome (c := ⟨enough, depth, .block script, started m⟩) trivial
  rw [hout] at hover hdrawn
  exact ⟨hover, hdrawn ▸ hfirst⟩

/-- An interpreter whose run is over refuses a call and stays as it is. -/
theorem Over.run (h : i.Over stop) (limits : Limits) (script : Script) :
    i.run limits script = (i, some (refusal i.status)) := by
  obtain ⟨m, status, failure⟩ := i
  cases h with
  | success hstatus _ =>
    cases hstatus
    rfl
  | error hstatus _ =>
    cases hstatus
    rfl

theorem Over.returns_iff {stop' : Option Halt} (h : i.Over stop) :
    i.Returns depth script i' stop' ↔ i' = i ∧ stop' = some (refusal i.status) := by
  have hown : i.Returns depth script i (some (refusal i.status)) :=
    .of_run (fun limits => h.run limits script) (by simp [refusal, Halt.ofFault]) depth
  constructor
  · intro h'
    simpa using h'.unique hown
  · rintro ⟨rfl, rfl⟩
    exact hown

/-! ## Calls in a row -/

/-- Behind the end of a run there is nothing but refusals. -/
theorem Over.session_iff (h : i.Over stop) {later : List Script}
    {answers : List (Interpreter × Option Halt)} :
    Session depth i later answers ↔
      answers = List.replicate later.length (i, some (refusal i.status)) := by
  induction later generalizing answers with
  | nil =>
    constructor
    · intro hsession
      cases hsession
      rfl
    · rintro rfl
      exact .nil
  | cons script later ih =>
    rw [List.length_cons, List.replicate_succ]
    constructor
    · intro hsession
      cases hsession with
      | cons hcall hrest =>
        obtain ⟨rfl, rfl⟩ := h.returns_iff.mp hcall
        rw [ih.mp hrest]
    · rintro rfl
      exact .cons (h.returns_iff.mpr ⟨rfl, rfl⟩) (ih.mpr rfl)

end Interpreter

open Interpreter in
/-- The calls of an interpreter that has not run anything. The first one runs its script. If it
returns, the run is over: either it came to its end and no failure is on record, or it failed, and
what the call has answered is the failure on record. All other calls are refused, and the
interpreter with its environment, its primitives, its state and its record stays what it was behind
the first call. -/
theorem session_runs_once (m : Machine) (depth : Nat) (first : Script) (later : List Script)
    (answers : List (Interpreter × Option Halt)) :
    Session depth (ready m) (first :: later) answers ↔
      ∃ i stop, (ready m).Returns depth first i stop ∧ i.Over stop ∧
        (started m).primitives.toList <+: i.primitives ∧
        answers = (i, stop) ::
          List.replicate later.length (i, some (.error ⟨.alreadyFinished i.status, none⟩)) := by
  constructor
  · intro h
    cases h with
    | cons hcall hrest =>
      obtain ⟨hover, hfirst⟩ := over_of_returns hcall
      exact ⟨_, _, hcall, hover, hfirst, congrArg _ (hover.session_iff.mp hrest)⟩
  · rintro ⟨i, stop, hcall, hover, -, rfl⟩
    exact .cons hcall (hover.session_iff.mpr rfl)

open Interpreter in
/-- A recursion without end is ended by the limit on the depth, which goes on record and is not
replaced by the refusal of another call. -/
example :
    let i := ((ready (.on (.fresh (.startingAt 0.0 0.0)))).run ⟨9, 99⟩
      [.define "P" [] [.call "P" []], .call "P" []]).1
    i.failure = some .tooDeep ∧ i.env.depth = 0 ∧
      i.run ⟨9, 99⟩ [.command .penUp [] none] = (i, some (refusal .haltedError)) :=
  ⟨rfl, rfl, rfl⟩

end TurtleGraphics
