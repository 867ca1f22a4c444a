import TurtleGraphics.Proofs.Halving
import TurtleGraphics.Proofs.Linking
import TurtleGraphics.Proofs.ReadBounds

/-!
# TurtleGraphics.Proofs.Endings

How the processing of a text can end.

* `Moment.LosesDirection`  : a walk is about to start at an infinite angle.
* `Linked.end_of_halted`   : a run of a parsed script lacks no operand and can show every statement.
* `Ending.isAnswer`, `Ending.isLimit` : the script has succeeded or is at fault; a limit was met.
* `Processed`              : how the processing of a text can end.
* `runScript_ending`       : so there is an answer, or a limit was met, or a direction was lost, or
  the canvas has no centre.
* `runScript_loses_direction` : a direction can be lost.

A heading is a sum of finite angles that may overflow, and an infinite angle has no sine. This end
is not among the faults of a script, so it is not reported as one. Nor is a canvas without a centre
a fault of the script.
-/

namespace TurtleGraphics

/-! ## Parsed statements can be shown -/

namespace Expr

theorem Derived.shown {ts : List Token} {e : Expr} (h : Derived ts e) :
    ∃ us, e.tokens = .ok us := by
  induction h with
  | literal hl =>
    cases hl with
    | yes => exact ⟨_, rfl⟩
    | no => exact ⟨_, rfl⟩
    | number _ _ _ _ => exact ⟨_, rfl⟩
  | «variable» => exact ⟨_, rfl⟩
  | query _ => exact ⟨_, rfl⟩
  | negation _ _ ih =>
    obtain ⟨us, hus⟩ := ih
    exact ⟨_, by rw [tokens, hus]⟩
  | numeric _ _ _ ihl ihr =>
    obtain ⟨us, hus⟩ := ihl
    obtain ⟨vs, hvs⟩ := ihr
    exact ⟨_, by rw [tokens, hus, hvs]⟩
  | logic _ _ _ ihl ihr =>
    obtain ⟨us, hus⟩ := ihl
    obtain ⟨vs, hvs⟩ := ihr
    exact ⟨_, by rw [tokens, hus, hvs]⟩

theorem AllDerived.shown {ts : List Token} {es : List Expr} (h : AllDerived ts es) :
    ∃ us, allTokens es = .ok us := by
  induction h with
  | nil => exact ⟨_, rfl⟩
  | cons he _ ih =>
    obtain ⟨us, hus⟩ := he.shown
    obtain ⟨vs, hvs⟩ := ih
    exact ⟨_, by rw [allTokens, hus, hvs]⟩

end Expr

theorem Stmt.Derived.shown {d : Declarations} {ts : List Token} {s : Stmt}
    (h : Stmt.Derived d ts s) : ∃ us, s.header = .ok us := by
  cases h with
  | command _ _ hes _ =>
    obtain ⟨us, hus⟩ := hes.shown
    exact ⟨_, by rw [Stmt.header, hus]⟩
  | assignment _ _ he =>
    obtain ⟨us, hus⟩ := he.shown
    exact ⟨_, by rw [Stmt.header, Expr.allTokens, hus]; rfl⟩
  | ifThen _ hc _ _ _ =>
    obtain ⟨us, hus⟩ := hc.shown
    exact ⟨_, by rw [Stmt.header, hus]⟩
  | whileDo _ hc _ _ _ =>
    obtain ⟨us, hus⟩ := hc.shown
    exact ⟨_, by rw [Stmt.header, hus]⟩
  | call _ _ hes =>
    obtain ⟨us, hus⟩ := hes.shown
    exact ⟨_, by rw [Stmt.header, hus]⟩

theorem Stmt.Derived.operands_length {d : Declarations} {ts : List Token} {v : Verb}
    {operands : List Expr} {target : Option String}
    (h : Stmt.Derived d ts (.command v operands target)) : operands.length = v.arity := by
  cases h with
  | command _ _ _ harity => exact harity
  | assignment _ htakes _ => exact (Verb.arity_of_takesName htakes).symm

namespace Linked

variable {script : Script} {m : Machine}

theorem shown {s : Stmt} (h : Linked script [s] m) : ∃ text, s.summary = .ok text := by
  obtain ⟨d, ts, hd, -⟩ := h.derived
  cases hd with
  | statement hs _ =>
    obtain ⟨us, hus⟩ := hs.shown
    exact ⟨spaced us, by rw [Stmt.summary, hus]⟩
  | definition _ _ _ _ _ _ _ => exact ⟨_, rfl⟩

theorem operands_length {v : Verb} {operands : List Expr} {target : Option String}
    (h : Linked script [.command v operands target] m) : operands.length = v.arity := by
  obtain ⟨d, ts, hd, -⟩ := h.derived
  cases hd with
  | statement hs _ => exact hs.operands_length

end Linked

/-! ## Runs that end early -/

/-- The turtle is about to walk, and the angle in which it would do so is infinite. -/
def Moment.LosesDirection (c : Moment) : Prop :=
  ∃ steps depth v operands target m,
    c = ⟨steps + 1, depth, .stmt (.command v operands target), m⟩ ∧
      v.LosesDirection operands m.env

theorem Moment.LosesDirection.halted {c : Moment} (h : c.LosesDirection) :
    ∃ m, c.outcome = .halted .noDirection m := by
  obtain ⟨steps, depth, v, operands, target, m, rfl, hlost⟩ := h
  exact ⟨m, by simp only [outcome, execute, perform_eq_noDirection_iff.mpr hlost]⟩

/-- The ends of a run that are left to a script that was parsed. -/
inductive Moment.EndsEarly (c : Moment) : Halt → Prop where
  | error (e : ExecError) : EndsEarly c (.error e)
  | tooDeep : EndsEarly c .tooDeep
  | outOfSteps : EndsEarly c .outOfSteps
  | noDirection {c' : Moment} : c.Reaches c' → c'.LosesDirection → EndsEarly c .noDirection

theorem Moment.EndsEarly.inStatement {c : Moment} {why : Halt} {s : Stmt} {text : String}
    (hs : s.summary = .ok text) (h : c.EndsEarly why) : c.EndsEarly (why.inStatement s) := by
  cases h with
  | error e =>
    obtain ⟨f, context⟩ := e
    cases context with
    | some _ => exact .error _
    | none =>
      simp only [Halt.inStatement, hs]
      exact .error _
  | tooDeep => exact .tooDeep
  | outOfSteps => exact .outOfSteps
  | noDirection hr hlost => exact .noDirection hr hlost

theorem Linked.end_of_fails {script : Script} {c c' : Moment} {why : Halt}
    (h : Linked script c'.task.stmts c'.machine) (hr : c.Reaches c') (hfails : c'.Fails why) :
    c.EndsEarly why := by
  cases hfails with
  | command hp =>
    cases failsWith_of_perform hp with
    | fault _ => exact .error _
    | noOperand harity hnil =>
      have hlength := h.operands_length
      rw [hnil, harity] at hlength
      cases hlength
    | noDirection hlost => exact .noDirection hr ⟨_, _, _, _, _, _, rfl, hlost⟩
  | ifThen _ => exact .error _
  | loop _ => exact .error _
  | call _ => exact .error _
  | foreign => exact .error _
  | tooDeep => exact .tooDeep
  | outOfSteps => exact .outOfSteps

/-- No command of a parsed script lacks an operand, and no statement of it fails to be shown. -/
theorem Linked.end_of_halted {script : Script} {c : Moment} {why : Halt} {m : Machine}
    (h : Linked script c.task.stmts c.machine) (ho : c.outcome = .halted why m) :
    c.EndsEarly why := by
  have hlinked : ∀ {c'}, c.Reaches c' → Linked script c'.task.stmts c'.machine :=
    fun hr => (upholds_linked script).reaches h hr
  obtain ⟨c', own, hr, hfails, rfl | ⟨inner, s, hinner, htask, rfl⟩⟩ := Moment.gives_of_halted ho
  · exact (hlinked hr).end_of_fails hr hfails
  · have hs := hlinked hinner
    rw [htask] at hs
    obtain ⟨text, htext⟩ := Linked.shown hs
    exact ((hlinked hr).end_of_fails hr hfails).inStatement htext

/-! ## Texts -/

namespace Ending

/-- The script has succeeded, or failed by an error of its own. -/
def isAnswer : Ending → Bool
  | .success _ _ _ => true
  | .failure _ => true
  | .unparsed _ => false
  | .oversized => false
  | .unfinished _ => false

/-- A limit on the nesting or the length of the run was met. -/
def isLimit : Ending → Bool
  | .unparsed .tooDeep => true
  | .unfinished .tooDeep => true
  | .unfinished .outOfSteps => true
  | _ => false

end Ending

/-- How the processing ends when a run has this outcome. -/
def Ending.ofOutcome : Outcome → Ending
  | .done m => .success m.primitives.toList m.env.turtle m.env.globals
  | .halted (.error e) _ => .failure (.exec e)
  | .halted why _ => .unfinished why

theorem ending_ofRun (limits : Limits) (env : Environment) (script : Script)
    (events : List Event) :
    (Report.ofRun events ((Interpreter.on env).run limits script)).ending =
      .ofOutcome (Moment.ofRun limits env script).outcome := by
  simp only [Interpreter.run, Interpreter.on, Moment.ofRun, Moment.outcome, Machine.execute]
  split <;> rename_i ho <;> rw [ho]
  · rfl
  · rename_i why _
    cases why <;> rfl

theorem Moment.EndsEarly.ending {c : Moment} {why : Halt} (h : c.EndsEarly why) (m : Machine) :
    (Ending.ofOutcome (.halted why m)).isAnswer = true ∨
    (Ending.ofOutcome (.halted why m)).isLimit = true ∨
    Ending.ofOutcome (.halted why m) = .unfinished .noDirection := by
  cases h with
  | error e => exact .inl rfl
  | tooDeep => exact .inr (.inl rfl)
  | outOfSteps => exact .inr (.inl rfl)
  | noDirection _ _ => exact .inr (.inr rfl)

theorem Ending.ofOutcome_eq_noDirection_iff (o : Outcome) :
    Ending.ofOutcome o = .unfinished .noDirection ↔ ∃ m, o = .halted .noDirection m := by
  constructor
  · intro h
    cases o with
    | done m => cases h
    | halted why m =>
      cases why with
      | noDirection => exact ⟨m, rfl⟩
      | _ => cases h
  · rintro ⟨m, rfl⟩
    rfl

theorem Ending.ofOutcome_ne_oversized (o : Outcome) : Ending.ofOutcome o ≠ .oversized := by
  cases o with
  | done m => nofun
  | halted why m => cases why <;> nofun

theorem Linked.halted_iff_losesDirection {script : Script} {c : Moment}
    (h : Linked script c.task.stmts c.machine) :
    (∃ m, c.outcome = .halted .noDirection m) ↔ ∃ c', c.Reaches c' ∧ c'.LosesDirection := by
  constructor
  · rintro ⟨m, ho⟩
    cases h.end_of_halted ho with
    | noDirection hr hlost => exact ⟨_, hr, hlost⟩
  · rintro ⟨c', hr, hlost⟩
    exact Moment.halted_of_reaches (fun _ => rfl) hr hlost.halted

/-- What becomes of a text that is a script, with the turtle that is made for it. -/
theorem ending_processScript {limits : Limits} {text : String} {script : Script}
    (h : parseScript limits.depth text = .ok script) (grammar : Grammar)
    (turtle? : Option Turtle) :
    (processScript limits grammar text turtle?).ending =
      match turtle? with
      | none => .oversized
      | some turtle => .ofOutcome (Moment.ofRun limits (.fresh turtle) script).outcome := by
  unfold parseScript at h
  split at h
  · cases h
  · rename_i ls hls
    split at h
    · cases h
    · rename_i found hfound
      cases h
      cases hp : parse limits.depth (tokensOf ls) with
      | mk result d =>
        rw [hp] at hfound
        cases hfound
        simp only [processScript, hls, hp]
        cases turtle? with
        | none => rfl
        | some turtle => exact ending_ofRun limits _ _ _

/-- A text that is no script is an error of its own, or it meets the limit of the parser, whatever
turtle there is. -/
theorem ending_of_not_script {limits : Limits} {text : String}
    (h : ¬ ∃ script, parseScript limits.depth text = .ok script) :
    (∃ e, ∀ grammar turtle?, (processScript limits grammar text turtle?).ending = .failure e) ∨
    ∀ grammar turtle?, (processScript limits grammar text turtle?).ending = .unparsed .tooDeep := by
  cases hls : tokenize text with
  | error e => exact .inl ⟨.lex e, fun _ _ => by simp only [processScript, hls, Report.failed]⟩
  | ok ls =>
    have hinside := parse_inside limits.depth (tokensOf ls)
    cases hp : parse limits.depth (tokensOf ls) with
    | mk result d =>
      rw [hp] at hinside
      cases result with
      | ok script => exact absurd ⟨script, by simp only [parseScript, hls, hp]⟩ h
      | error f =>
        cases f with
        | error e =>
          exact .inl ⟨.parse e, fun _ _ => by simp only [processScript, hls, hp, Report.failed]⟩
        | beyondEnd => exact absurd rfl hinside
        | tooDeep => exact .inr fun _ _ => by simp only [processScript, hls, hp]

/-- The moment at which the run of a script starts, at the centre of a canvas if there is one. -/
def Moment.ofScript? (limits : Limits) (script : Script) (width height : Int) : Option Moment :=
  (Turtle.centred? width height).map fun turtle => .ofRun limits (.fresh turtle) script

theorem Moment.exists_turtle_of_ofScript? {limits : Limits} {script : Script} {width height : Int}
    {start : Moment} (h : ofScript? limits script width height = some start) :
    ∃ turtle, Turtle.centred? width height = some turtle ∧
      start = .ofRun limits (.fresh turtle) script := by
  obtain ⟨turtle, hturtle, rfl⟩ := Option.map_eq_some_iff.mp h
  exact ⟨turtle, hturtle, rfl⟩

section

variable {limits : Limits} {text : String} {script : Script} {width height : Int}
  (h : parseScript limits.depth text = .ok script)

include h

theorem ending_of_ofScript? {start : Moment}
    (hstart : Moment.ofScript? limits script width height = some start) (grammar : Grammar) :
    (runScript limits grammar text width height).ending = .ofOutcome start.outcome := by
  obtain ⟨turtle, hturtle, rfl⟩ := Moment.exists_turtle_of_ofScript? hstart
  rw [runScript, ending_processScript h, hturtle]

theorem ending_of_not_hasCentre (hsize : ¬ HasCentre width height) (grammar : Grammar) :
    (runScript limits grammar text width height).ending = .oversized := by
  rw [runScript, ending_processScript h, (Turtle.centred?_eq_none_iff width height).mpr hsize]

theorem linked_of_parseScript {start : Moment}
    (hstart : Moment.ofScript? limits script width height = some start) :
    Linked script start.task.stmts start.machine := by
  obtain ⟨ts, -, hd, -⟩ := derived_of_parseScript h
  obtain ⟨turtle, -, rfl⟩ := Moment.exists_turtle_of_ofScript? hstart
  exact linked_of_derived hd limits _

end

/-- How the processing of a text can end. -/
inductive Processed (limits : Limits) (text : String) (width height : Int) : Ending → Prop where
  /-- The text is no script. -/
  | refused (e : ScriptError) : Processed limits text width height (.failure e)
  /-- The parser has met its limit. -/
  | nested : Processed limits text width height (.unparsed .tooDeep)
  | oversized {script : Script} : parseScript limits.depth text = .ok script →
      ¬ HasCentre width height → Processed limits text width height .oversized
  | ran {script : Script} {start : Moment} : parseScript limits.depth text = .ok script →
      Moment.ofScript? limits script width height = some start →
      Processed limits text width height (.ofOutcome start.outcome)

theorem processed_of_parseScript {limits : Limits} {text : String} {script : Script}
    (h : parseScript limits.depth text = .ok script) (grammar : Grammar) (width height : Int) :
    Processed limits text width height (runScript limits grammar text width height).ending := by
  rcases Option.eq_none_or_eq_some (Turtle.centred? width height) with
    hturtle | ⟨turtle, hturtle⟩
  · have hsize := (Turtle.centred?_eq_none_iff width height).mp hturtle
    rw [ending_of_not_hasCentre h hsize]
    exact .oversized h hsize
  · have hstart : Moment.ofScript? limits script width height =
        some (.ofRun limits (.fresh turtle) script) := by
      rw [Moment.ofScript?, hturtle, Option.map_some]
    rw [ending_of_ofScript? h hstart]
    exact .ran h hstart

theorem processed (limits : Limits) (grammar : Grammar) (text : String) (width height : Int) :
    Processed limits text width height (runScript limits grammar text width height).ending := by
  by_cases hscript : ∃ script, parseScript limits.depth text = .ok script
  · obtain ⟨script, hscript⟩ := hscript
    exact processed_of_parseScript hscript grammar width height
  · obtain ⟨e, he⟩ | hdeep := ending_of_not_script hscript
    · rw [runScript, he]
      exact .refused e
    · rw [runScript, hdeep]
      exact .nested

namespace Processed

variable {limits : Limits} {text : String} {width height : Int} {ending : Ending}

theorem isAnswer_or_isLimit_or_escape (h : Processed limits text width height ending) :
    ending.isAnswer = true ∨ ending.isLimit = true ∨ ending = .unfinished .noDirection ∨
      ending = .oversized := by
  cases h with
  | refused e => exact .inl rfl
  | nested => exact .inr (.inl rfl)
  | oversized _ _ => exact .inr (.inr (.inr rfl))
  | @ran script start hscript hstart =>
    have hlinked := linked_of_parseScript hscript hstart
    cases ho : start.outcome with
    | done m => exact .inl rfl
    | halted why m =>
      obtain hanswer | hlimit | hlost := (hlinked.end_of_halted ho).ending m
      · exact .inl hanswer
      · exact .inr (.inl hlimit)
      · exact .inr (.inr (.inl hlost))

theorem losesDirection (h : Processed limits text width height ending)
    (hlost : ending = .unfinished .noDirection) :
    ∃ script start c, parseScript limits.depth text = .ok script ∧
      Moment.ofScript? limits script width height = some start ∧
      start.Reaches c ∧ c.LosesDirection := by
  cases h with
  | @ran script start hscript hstart =>
    have hlinked := linked_of_parseScript hscript hstart
    obtain ⟨c, hr, hc⟩ := hlinked.halted_iff_losesDirection.mp
      ((Ending.ofOutcome_eq_noDirection_iff _).mp hlost)
    exact ⟨script, start, c, hscript, hstart, hr, hc⟩
  | _ => cases hlost

theorem of_oversized (h : Processed limits text width height ending)
    (hsize : ending = .oversized) :
    (∃ script, parseScript limits.depth text = .ok script) ∧ ¬ HasCentre width height := by
  cases h with
  | oversized hscript hno => exact ⟨⟨_, hscript⟩, hno⟩
  | @ran script start _ _ => exact absurd hsize (Ending.ofOutcome_ne_oversized _)
  | _ => cases hsize

end Processed

section

variable (limits : Limits) (grammar : Grammar) (text : String) (width height : Int)

theorem ending_eq_noDirection_iff :
    (runScript limits grammar text width height).ending = .unfinished .noDirection ↔
      ∃ script start c, parseScript limits.depth text = .ok script ∧
        Moment.ofScript? limits script width height = some start ∧
        start.Reaches c ∧ c.LosesDirection := by
  refine ⟨(processed limits grammar text width height).losesDirection, ?_⟩
  rintro ⟨script, start, c, hscript, hstart, hr, hlost⟩
  rw [ending_of_ofScript? hscript hstart, Ending.ofOutcome_eq_noDirection_iff]
  have hlinked := linked_of_parseScript hscript hstart
  exact hlinked.halted_iff_losesDirection.mpr ⟨c, hr, hlost⟩

theorem ending_eq_oversized_iff :
    (runScript limits grammar text width height).ending = .oversized ↔
      (∃ script, parseScript limits.depth text = .ok script) ∧ ¬ HasCentre width height := by
  refine ⟨(processed limits grammar text width height).of_oversized, ?_⟩
  rintro ⟨⟨script, hscript⟩, hsize⟩
  exact ending_of_not_hasCentre hscript hsize grammar

end

/-- Whatever the text and the canvas are, there is an answer, or a limit was met, or a walk was to
start at an infinite angle, or the canvas has no centre. A direction is lost exactly if such a walk
is reached, and the canvas is refused exactly if there is a script to run on it. -/
theorem runScript_ending (limits : Limits) (grammar : Grammar) (text : String)
    (width height : Int) :
    let ending := (runScript limits grammar text width height).ending
    (ending.isAnswer = true ∨ ending.isLimit = true ∨ ending = .unfinished .noDirection ∨
      ending = .oversized) ∧
    (ending = .unfinished .noDirection ↔
      ∃ script start c, parseScript limits.depth text = .ok script ∧
        Moment.ofScript? limits script width height = some start ∧
        start.Reaches c ∧ c.LosesDirection) ∧
    (ending = .oversized ↔
      (∃ script, parseScript limits.depth text = .ok script) ∧ ¬ HasCentre width height) :=
  ⟨(processed limits grammar text width height).isAnswer_or_isLimit_or_escape,
    ending_eq_noDirection_iff limits grammar text width height,
    ending_eq_oversized_iff limits grammar text width height⟩

/-- Two turns by finite angles add up to an infinite one, and the walk after them has no direction.
That is no answer, and no limit was met either. -/
theorem runScript_loses_direction :
    let ending := (runScript ⟨9, 99⟩ ⟨"logo.dsl", true⟩
      "TURN \"1e308 TURN \"1e308 FORWARD \"1" 500 500).ending
    ending.isAnswer = false ∧ ending.isLimit = false ∧ HasCentre 500 500 := by
  decide +kernel

end TurtleGraphics
