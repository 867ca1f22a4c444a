import TurtleGraphics.Proofs.Contexts
import TurtleGraphics.Proofs.RunsInTurn

/-!
# TurtleGraphics.Proofs.Annotation

What becomes of an error on its way out of a block.

A block names an error after the statement that has failed, and for that it prints the statement.
Printing fails where a part of the statement is misplaced. Then the error is lost, and the failure
of the printer leaves the block in its place.

* `Expr.misplaced`, `Stmt.misplaced` : the misplaced parts that a printer comes to, in order.
* `Stmt.summary_shows`        : a summary fails at the first of them, and only there.
* `block_names_printable`     : so an error leaves a block with its fault just when the statement
  that raised it has no misplaced part, whatever stands around the block.
* `block_loses_misfit`        : the report of a misplaced statement never leaves its block.
-/

namespace TurtleGraphics

/-! ## Misplaced parts -/

/-- The parts of an expression that are no expressions, from left to right. -/
def Expr.misplaced : Expr → List Misfit
  | .numeric _ l r => l.misplaced ++ r.misplaced
  | .logic _ l r => l.misplaced ++ r.misplaced
  | .negation e => e.misplaced
  | .foreign s => [.notExpression s]
  | _ => []

/-- The misplaced parts of a statement up to its block: those of its expressions, or itself. -/
def Stmt.misplaced : Stmt → List Misfit
  | .command _ operands _ => operands.flatMap Expr.misplaced
  | .ifThen c _ => c.misplaced
  | .whileDo c _ => c.misplaced
  | .define _ _ _ => []
  | .call _ arguments => arguments.flatMap Expr.misplaced
  | .foreign s => [.notStatement s]

/-- Printing fails at the first of some parts, and succeeds if there are none. -/
def Shows {α : Type} (parts : List Misfit) (r : Except Misfit α) : Prop :=
  match parts with
  | [] => ∃ a, r = .ok a
  | part :: _ => r = .error part

namespace Shows

variable {α β : Type} {ps qs : List Misfit} {r : Except Misfit α} {r' : Except Misfit β}

/-- A printer that fails as another one does, and behind that at parts of its own. -/
theorem andThen (h : Shows ps r) (herror : ∀ m, r = .error m → r' = .error m)
    (hok : ∀ a, r = .ok a → Shows qs r') : Shows (ps ++ qs) r' := by
  cases ps with
  | nil =>
    obtain ⟨a, ha⟩ := h
    exact hok a ha
  | cons part others => exact herror part h

/-- A printer that fails just as another one does. -/
theorem andOk (h : Shows ps r) (herror : ∀ m, r = .error m → r' = .error m)
    (hok : ∀ a, r = .ok a → ∃ b, r' = .ok b) : Shows ps r' := by
  have hall : Shows (ps ++ []) r' := h.andThen herror hok
  rwa [List.append_nil] at hall

end Shows

theorem Expr.tokens_shows (e : Expr) : Shows e.misplaced e.tokens := by
  induction e with
  | boolean b => cases b <;> exact ⟨_, rfl⟩
  | numeric op l r ihl ihr =>
    refine ihl.andThen (fun m hm => by simp only [tokens, hm]) fun ls hl => ?_
    exact ihr.andOk (fun m hm => by simp only [tokens, hl, hm]) fun rs hr =>
      ⟨_, by simp only [tokens, hl, hr]; rfl⟩
  | logic op l r ihl ihr =>
    refine ihl.andThen (fun m hm => by simp only [tokens, hm]) fun ls hl => ?_
    exact ihr.andOk (fun m hm => by simp only [tokens, hl, hm]) fun rs hr =>
      ⟨_, by simp only [tokens, hl, hr]; rfl⟩
  | negation e ih =>
    exact ih.andOk (fun m hm => by simp only [tokens, hm]) fun ts hts =>
      ⟨_, by simp only [tokens, hts]; rfl⟩
  | foreign s => exact rfl
  | _ => exact ⟨_, rfl⟩

theorem Expr.allTokens_shows (es : List Expr) :
    Shows (es.flatMap Expr.misplaced) (allTokens es) := by
  induction es with
  | nil => exact ⟨_, rfl⟩
  | cons e es ih =>
    refine e.tokens_shows.andThen (fun m hm => by simp only [allTokens, hm]) fun ts hts => ?_
    exact ih.andOk (fun m hm => by simp only [allTokens, hts, hm]) fun us hus =>
      ⟨_, by simp only [allTokens, hts, hus]; rfl⟩

theorem Stmt.header_shows (s : Stmt) : Shows s.misplaced s.header := by
  cases s with
  | command v operands target =>
    refine (Expr.allTokens_shows operands).andOk (fun m hm => by simp only [header, hm])
      fun ts hts => ?_
    cases target <;> exact ⟨_, by simp only [header, hts]; rfl⟩
  | ifThen c block =>
    exact c.tokens_shows.andOk (fun m hm => by simp only [header, hm]) fun ts hts =>
      ⟨_, by simp only [header, hts]; rfl⟩
  | whileDo c block =>
    exact c.tokens_shows.andOk (fun m hm => by simp only [header, hm]) fun ts hts =>
      ⟨_, by simp only [header, hts]; rfl⟩
  | define name parameters body => exact ⟨_, rfl⟩
  | call name arguments =>
    exact (Expr.allTokens_shows arguments).andOk (fun m hm => by simp only [header, hm])
      fun ts hts => ⟨_, by simp only [header, hts]; rfl⟩
  | foreign s => exact rfl

/-- A summary fails at the first misplaced part of the statement, and only there. -/
theorem Stmt.summary_shows (s : Stmt) : Shows s.misplaced s.summary :=
  s.header_shows.andOk (fun m hm => by simp only [summary, hm]) fun ts hts =>
    ⟨_, by simp only [summary, hts]; rfl⟩

/-! ## Errors on their way out -/

section

variable {s : Stmt} {f : Fault}

theorem Halt.inStatement_of_printable (h : s.misplaced = []) :
    ∃ text, s.summary = .ok text ∧
      (Halt.error ⟨f, none⟩).inStatement s = .error ⟨f, some text⟩ := by
  have hshows := s.summary_shows
  rw [h] at hshows
  obtain ⟨text, htext⟩ := hshows
  exact ⟨text, htext, by simp only [Halt.inStatement, htext]⟩

theorem Halt.inStatement_of_misplaced {part : Misfit} {others : List Misfit}
    (h : s.misplaced = part :: others) :
    (Halt.error ⟨f, none⟩).inStatement s = .unprintable part := by
  have hshows := s.summary_shows
  rw [h] at hshows
  simp only [Halt.inStatement, show s.summary = .error part from hshows]

/-- A statement keeps the fault of an error that leaves it, with a context, just when the error has
a context already or the statement has no misplaced part. -/
theorem Halt.inStatement_keeps_iff {context : Option String} :
    (∃ text, (Halt.error ⟨f, context⟩).inStatement s = .error ⟨f, some text⟩) ↔
      (context = none → s.misplaced = []) := by
  cases context with
  | some text => exact ⟨nofun, fun _ => ⟨text, rfl⟩⟩
  | none =>
    cases hparts : s.misplaced with
    | nil =>
      obtain ⟨text, -, hkeeps⟩ := Halt.inStatement_of_printable (f := f) hparts
      exact ⟨fun _ _ => rfl, fun _ => ⟨text, hkeeps⟩⟩
    | cons part others =>
      rw [Halt.inStatement_of_misplaced hparts]
      exact ⟨nofun, fun h => nomatch h rfl⟩

end

/-- An error that a statement ends in leaves the block as an error with the same fault and a context
just when the statement, or one inside of it, has given it a context already or the statement has no
misplaced part. A context that is there stays; and where there is none and a part is misplaced, the
first such part is reported in place of the error. The machine is left as the statement left it.
The same holds at any depth of a run: what the step of a statement raises ends the run with its
fault and the summary of the statement, or with the first misplaced part. -/
theorem block_names_printable (s : Stmt) (f : Fault) :
    (∀ depth before rest m m₁ m₂ context, Ends depth (.all before) m (.done m₁) →
      Ends depth (.stmt s) m₁ (.halted (.error ⟨f, context⟩) m₂) →
      ∃ why, Ends (depth + 1) (.block (before ++ s :: rest)) m (.halted why m₂) ∧
        ((∃ text, why = .error ⟨f, some text⟩) ↔ (context = none → s.misplaced = [])) ∧
        (∀ text, context = some text → why = .error ⟨f, some text⟩) ∧
        ∀ part others, context = none → s.misplaced = part :: others →
          why = .unprintable part) ∧
    ∀ limits env script c, (Moment.ofRun limits env script).Reaches c →
      c.task.own? = some s → c.Fails (.error ⟨f, none⟩) →
      (s.misplaced = [] → ∃ text, s.summary = .ok text ∧
        ((Interpreter.on env).run limits script).2 = some (.error ⟨f, some text⟩)) ∧
      ∀ part others, s.misplaced = part :: others →
        ((Interpreter.on env).run limits script).2 = some (.unprintable part) := by
  constructor
  · intro depth before rest m m₁ m₂ context hbefore hs
    refine ⟨(Halt.error ⟨f, context⟩).inStatement s, ?_, Halt.inStatement_keeps_iff, ?_, ?_⟩
    · exact .enter (Ends.all_append_iff.mpr (.inr ⟨m₁, hbefore, hs.first⟩))
    · rintro text rfl
      rfl
    · rintro part others rfl hparts
      exact Halt.inStatement_of_misplaced hparts
  · intro limits env script c hr hown hfails
    obtain ⟨hnot, -⟩ | ⟨m, ho⟩ := Moment.named_of_reaches hr hown ⟨_, hfails.outcome⟩
    · cases hnot
    · rw [Interpreter.halt_run, ho]
      constructor
      · intro hparts
        obtain ⟨text, htext, hkeeps⟩ := Halt.inStatement_of_printable (f := f) hparts
        exact ⟨text, htext, congrArg some hkeeps⟩
      · intro part others hparts
        exact congrArg some (Halt.inStatement_of_misplaced hparts)

/-- The variable is unbound, and the other operand is a statement. By itself the command raises the
error for the variable; out of a block comes the report of a part that has not been evaluated. -/
theorem block_names_printable_lost :
    let part : Shape := .node .ifThen [.node .boolean [.flag true], .list []]
    let s : Stmt := .command .forward [.numeric .add (.variable "x") (.foreign part)] none
    let m := Machine.on (.fresh (.startingAt 0.0 0.0))
    ∃ m₁, Ends 8 (.all [.command .penDown [] none]) m (.done m₁) ∧
      Ends 8 (.stmt s) m₁ (.halted (.error ⟨.undefinedVariable (some "x"), none⟩) m₁) ∧
      Ends 9 (.block [.command .penDown [] none, s]) m
        (.halted (.unprintable (.notExpression part)) m₁) := by
  intro part s m
  have hbefore : Ends 8 (.all [.command .penDown [] none]) m
      (.done (execute 1 8 (.command .penDown [] none) m).machine) :=
    .of_outcome (show Moment.outcome ⟨3, _, _, _⟩ = _ from rfl) nofun
  have hs : Ends 8 (.stmt s) (execute 1 8 (.command .penDown [] none) m).machine
      (.halted (.error ⟨.undefinedVariable (some "x"), none⟩)
        (execute 1 8 (.command .penDown [] none) m).machine) :=
    .of_outcome (show Moment.outcome ⟨1, _, _, _⟩ = _ from rfl) nofun
  obtain ⟨why, hends, -, -, hlost⟩ :=
    (block_names_printable s _).1 _ _ [] _ _ _ _ hbefore hs
  obtain rfl := hlost (.notExpression part) [] rfl rfl
  exact ⟨_, hbefore, hs, hends⟩

/-- A number where a statement belongs. By itself it raises the error that is meant for such a part;
no error comes out of a block. -/
theorem block_loses_misfit :
    let shape : Shape := .node .number [.number 1.0]
    let m := Machine.on (.fresh (.startingAt 0.0 0.0))
    Ends 8 (.stmt (.foreign shape)) m
        (.halted (.error ⟨.misfit (.notStatement shape), none⟩) m) ∧
      Ends 9 (.block [.foreign shape]) m (.halted (.unprintable (.notStatement shape)) m) ∧
      ∀ f context m₁,
        ¬ Ends 9 (.block [.foreign shape]) m (.halted (.error ⟨f, context⟩) m₁) := by
  intro shape m
  have halone : Ends 8 (.stmt (.foreign shape)) m
      (.halted (.error ⟨.misfit (.notStatement shape), none⟩) m) :=
    .of_outcome (show Moment.outcome ⟨1, _, _, _⟩ = _ from rfl) nofun
  have hblock : Ends 9 (.block [.foreign shape]) m
      (.halted (.unprintable (.notStatement shape)) m) :=
    .of_outcome (show Moment.outcome ⟨3, _, _, _⟩ = _ from rfl) nofun
  refine ⟨halone, hblock, fun f context m₁ herror => ?_⟩
  cases hblock.unique herror

end TurtleGraphics
