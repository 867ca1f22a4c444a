import TurtleGraphics.Proofs.Endings
import TurtleGraphics.Proofs.Hidden

/-!
# TurtleGraphics.Proofs.Canvas

The canvas only shifts the drawing.

* `Ending.withoutPlace`     : an ending without the coordinates in it.
* `run_hides_place`         : a script that does not ask where the turtle is does the same anywhere.
* `runScript_hides_canvas`  : so the size of the canvas shows in the coordinates only, if it has a
  centre.
* `runScript_tells_oversized_canvas` : a canvas that has none is told from one that has.

The coordinates need not be numbers for this: a walk fails because of its direction, and never
because of where it leads.
-/

namespace TurtleGraphics

/-- An ending with the turtle at the origin, and with primitives that tell nothing of the place. -/
def Ending.withoutPlace : Ending → Ending
  | .success primitives turtle globals =>
    .success (primitives.map Primitive.withoutPlace) turtle.withoutPlace globals
  | e => e

/-- A script does not ask where the turtle is. -/
def Script.Placeless (script : Script) : Prop :=
  Query.xcor ∉ Stmt.allQueries script ∧ Query.ycor ∉ Stmt.allQueries script

theorem Script.Placeless.unasked {script : Script} (h : script.Placeless) :
    Mask.place.Unasked script script := by
  refine ⟨rfl, fun q hq => Mask.place_shows ?_ ?_⟩
  · rintro rfl
    exact h.1 hq
  · rintro rfl
    exact h.2 hq

section

variable {m m' : Machine}

theorem Masked.map_withoutPlace (h : Masked Mask.place Mask.place.Unasked m m') :
    m'.primitives.toList.map Primitive.withoutPlace =
      m.primitives.toList.map Primitive.withoutPlace := by
  rw [← List.filterMap_eq_map]
  exact h.primitives

theorem Outcome.Alike.withoutPlace {o o' : Outcome}
    (h : Outcome.Alike (Masked Mask.place Mask.place.Unasked) Eq o o') :
    (Ending.ofOutcome o').withoutPlace = (Ending.ofOutcome o).withoutPlace := by
  cases h with
  | @done m m' hm =>
    have hturtle : m'.env.turtle.withoutPlace = m.env.turtle.withoutPlace := hm.turtle
    simp only [Ending.ofOutcome, Ending.withoutPlace, hm.map_withoutPlace, hturtle, hm.globals]
  | @halted why _ _ _ hwhy _ =>
    subst hwhy
    cases why <;> rfl

end

theorem alike_of_placeless {script : Script} (h : script.Placeless) {t t' : Turtle}
    (ht : Mask.place.Turtles t t') (limits : Limits) :
    Outcome.Alike (Masked Mask.place Mask.place.Unasked) Eq
      (Moment.ofRun limits (.fresh t) script).outcome
      (Moment.ofRun limits (.fresh t') script).outcome := by
  have hstart : Masked Mask.place Mask.place.Unasked (Interpreter.started (.on (.fresh t)))
      (Interpreter.started (.on (.fresh t'))) :=
    ⟨ht, rfl, rfl, fun _ => .none, rfl⟩
  exact (lockstep_masked Mask.steerable_place).run (i := ()) h.unasked.matched hstart limits

/-- A script that does not ask where the turtle is does the same anywhere, up to any end. -/
theorem run_hides_place {script : Script} (h : script.Placeless) {t t' : Turtle}
    (ht : t'.withoutPlace = t.withoutPlace) (limits : Limits) :
    let here := (Interpreter.on (.fresh t)).run limits script
    let there := (Interpreter.on (.fresh t')).run limits script
    there.2 = here.2 ∧ there.1.env.globals = here.1.env.globals ∧
      there.1.env.turtle.withoutPlace = here.1.env.turtle.withoutPlace ∧
      there.1.primitives.map Primitive.withoutPlace =
        here.1.primitives.map Primitive.withoutPlace := by
  intro here there
  have halike := alike_of_placeless h ht limits
  simp only [here, there, Interpreter.halt_run, Interpreter.env_run, Interpreter.primitives_run]
  obtain ⟨m, m', ho, ho', hm⟩ | ⟨why, _, m, m', ho, ho', rfl, hm⟩ := halike.done_or_halted
  · rw [ho, ho']
    exact ⟨rfl, hm.globals, hm.turtle, hm.map_withoutPlace⟩
  · rw [ho, ho']
    exact ⟨rfl, hm.globals, hm.turtle, hm.map_withoutPlace⟩

/-- The turtles at the centres of two canvases differ in nothing but their places. -/
theorem withoutPlace_of_centred? {width height width' height' : Int} {turtle turtle' : Turtle}
    (h : Turtle.centred? width height = some turtle)
    (h' : Turtle.centred? width' height' = some turtle') :
    turtle'.withoutPlace = turtle.withoutPlace := by
  obtain ⟨x, y, rfl⟩ := Turtle.eq_startingAt_of_startingAt? h
  obtain ⟨x', y', rfl⟩ := Turtle.eq_startingAt_of_startingAt? h'
  rfl

/-- A script that does not ask where the turtle is ends in the same way on two canvases if they
have centres or if neither has one. -/
theorem ending_withoutPlace_eq {limits : Limits} {text : String} {script : Script}
    (hscript : parseScript limits.depth text = .ok script) (h : script.Placeless)
    (grammar grammar' : Grammar) {width height width' height' : Int}
    (hsizes : HasCentre width height ↔ HasCentre width' height') :
    (runScript limits grammar' text width' height').ending.withoutPlace =
      (runScript limits grammar text width height).ending.withoutPlace := by
  by_cases hcentre : HasCentre width height
  · obtain ⟨turtle, hturtle⟩ := Turtle.exists_centred? hcentre
    obtain ⟨turtle', hturtle'⟩ := Turtle.exists_centred? (hsizes.mp hcentre)
    rw [runScript, runScript, ending_processScript hscript, ending_processScript hscript, hturtle,
      hturtle']
    exact (alike_of_placeless h (withoutPlace_of_centred? hturtle hturtle') limits).withoutPlace
  · have hcentre' : ¬ HasCentre width' height' := fun h => hcentre (hsizes.mpr h)
    rw [ending_of_not_hasCentre hscript hcentre, ending_of_not_hasCentre hscript hcentre']

/-- A script that does not ask where the turtle is ends in the same way on any two canvases of
which both or neither has a centre: with the same error or other failure, or else with the same
variables, heading, pen and colour, and the same primitives but for coordinates. Up to an error it
has done the same as well. What is no script does not need a canvas. -/
theorem runScript_hides_canvas (limits : Limits) (grammar grammar' : Grammar) (text : String)
    (width height width' height' : Int)
    (h : ∀ script, parseScript limits.depth text = .ok script →
      script.Placeless ∧ (HasCentre width height ↔ HasCentre width' height')) :
    (runScript limits grammar' text width' height').ending.withoutPlace =
        (runScript limits grammar text width height).ending.withoutPlace ∧
    ∀ script turtle turtle', parseScript limits.depth text = .ok script →
      Turtle.centred? width height = some turtle →
      Turtle.centred? width' height' = some turtle' →
      let here := (Interpreter.on (.fresh turtle)).run limits script
      let there := (Interpreter.on (.fresh turtle')).run limits script
      there.2 = here.2 ∧ there.1.env.globals = here.1.env.globals ∧
        there.1.env.turtle.withoutPlace = here.1.env.turtle.withoutPlace ∧
        there.1.primitives.map Primitive.withoutPlace =
          here.1.primitives.map Primitive.withoutPlace := by
  constructor
  · by_cases hscript : ∃ script, parseScript limits.depth text = .ok script
    · obtain ⟨script, hscript⟩ := hscript
      obtain ⟨hplaceless, hsizes⟩ := h script hscript
      exact ending_withoutPlace_eq hscript hplaceless grammar grammar' hsizes
    · obtain ⟨e, he⟩ | hdeep := ending_of_not_script hscript
      · rw [runScript, runScript, he, he]
      · rw [runScript, runScript, hdeep, hdeep]
  · intro script turtle turtle' hscript hturtle hturtle'
    exact run_hides_place (h script hscript).1 (withoutPlace_of_centred? hturtle hturtle') limits

/-- The heading and the colour may be asked for, also to walk by them. -/
theorem runScript_hides_canvas_of_turns :
    let text := "PENDOWN TURN COLOR RIGHT HEADING"
    (runScript ⟨9, 99⟩ ⟨"logo.dsl", true⟩ text 100 (-40)).ending.withoutPlace =
      (runScript ⟨9, 99⟩ ⟨"logo.dsl", false⟩ text 500 500).ending.withoutPlace := by
  intro text
  refine (runScript_hides_canvas ⟨9, 99⟩ ⟨"logo.dsl", false⟩ ⟨"logo.dsl", true⟩ text 500 500
    100 (-40) ?_).1
  intro script hscript
  have hparse : parseScript 9 "PENDOWN TURN COLOR RIGHT HEADING" = .ok
      [.command .penDown [] none, .command .turn [.query .color] none,
        .command .right [.query .heading] none] := by
    with_unfolding_all rfl
  rw [hparse] at hscript
  cases hscript
  exact ⟨⟨by decide, by decide⟩, by decide +kernel⟩

/-- A canvas without a centre is told from one that has a centre, also by an empty script. -/
theorem runScript_tells_oversized_canvas :
    let ending := fun width => (runScript ⟨9, 99⟩ ⟨"logo.dsl", true⟩ "" width 500).ending
    (∀ script, parseScript 9 "" = .ok script → script.Placeless) ∧
    (ending (Int.ofNat (Number.power 10 400))).withoutPlace ≠ (ending 500).withoutPlace := by
  intro ending
  refine ⟨fun script hscript => ?_, fun hsame => ?_⟩
  · have hparse : parseScript 9 "" = .ok [] := by with_unfolding_all rfl
    rw [hparse] at hscript
    cases hscript
    exact ⟨by decide, by decide⟩
  · exact absurd (congrArg Ending.isAnswer hsame) (by decide +kernel)

end TurtleGraphics
