import TurtleGraphics.Proofs.Agreement

/-!
# TurtleGraphics.Proofs.Hidden

What of the turtle has no part in a computation.

* `Mask`       : hides a part of the turtle, and what primitives tell of it.
* `Mask.pen`, `Mask.place` : the pen, and the place.
* `Mask.Shows` : a query is not about what is hidden.
* `Expr.queries`, `Stmt.queries` : the queries of an expression or a statement.
* `Masked`     : machines that differ in what is hidden; expressions without queries about it have
  the same values there, and commands and calls with such operands do alike.
* `lockstep_masked` : so does a whole script without such queries.
-/

namespace TurtleGraphics

/-! ## Masks -/

/-- Hides a part of the turtle, and of a primitive what it tells of that part. -/
structure Mask where
  turtle : Turtle → Turtle
  primitive : Primitive → Option Primitive

/-- A turtle with its pen lifted. -/
def Turtle.withoutPen (t : Turtle) : Turtle := { t with penDown := false }

/-- A turtle at the origin. -/
def Turtle.withoutPlace (t : Turtle) : Turtle := { t with x := 0.0, y := 0.0 }

/-- A primitive without what it tells of the pen, if anything is left. -/
def Primitive.withoutPen : Primitive → Option Primitive
  | .lineTo x y => some (.moveTo x y)
  | .penState _ => none
  | p => some p

/-- A primitive without what it tells of the place. -/
def Primitive.withoutPlace : Primitive → Primitive
  | .moveTo _ _ => .moveTo 0.0 0.0
  | .lineTo _ _ => .lineTo 0.0 0.0
  | p => p

namespace Mask

/-- Hides whether the pen is down. -/
def pen : Mask := ⟨Turtle.withoutPen, Primitive.withoutPen⟩

/-- Hides where the turtle is. -/
def place : Mask := ⟨Turtle.withoutPlace, fun p => some p.withoutPlace⟩

/-- Two turtles differ in what is hidden. -/
def Turtles (k : Mask) (t t' : Turtle) : Prop := k.turtle t' = k.turtle t

/-- Two primitives tell the same of what is not hidden. -/
def Drawn (k : Mask) (p p' : Primitive) : Prop := k.primitive p' = k.primitive p

/-- A query has the same answer for all turtles that differ in what is hidden. -/
def Shows (k : Mask) (q : Query) : Prop := ∀ t t', k.Turtles t t' → t'.query q = t.query q

theorem pen_turtles_iff {t t' : Turtle} :
    pen.Turtles t t' ↔ t'.x = t.x ∧ t'.y = t.y ∧ t'.heading = t.heading ∧ t'.color = t.color := by
  simp [Turtles, pen, Turtle.withoutPen]

theorem place_turtles_iff {t t' : Turtle} :
    place.Turtles t t' ↔ t'.heading = t.heading ∧ t'.penDown = t.penDown ∧ t'.color = t.color := by
  simp [Turtles, place, Turtle.withoutPlace]

theorem pen_shows (q : Query) : pen.Shows q := by
  intro t t' h
  obtain ⟨hx, hy, hheading, hcolor⟩ := pen_turtles_iff.mp h
  cases q <;> simp only [Turtle.query, hx, hy, hheading, hcolor]

theorem place_shows {q : Query} (hx : q ≠ .xcor) (hy : q ≠ .ycor) : place.Shows q := by
  intro t t' h
  obtain ⟨hheading, -, hcolor⟩ := place_turtles_iff.mp h
  cases q with
  | xcor => exact absurd rfl hx
  | ycor => exact absurd rfl hy
  | heading => simp only [Turtle.query, hheading]
  | color => simp only [Turtle.query, hcolor]
  | unknown w => rfl

/-- A walk leads to the same place whether it is drawn or not. -/
theorem steerable_pen : Steerable pen.Turtles pen.Drawn where
  walk {t t'} h distance offset := by
    obtain ⟨hx, hy, hheading, hcolor⟩ := pen_turtles_iff.mp h
    have hwalked : ∀ (t u : Turtle), (t.walked u).withoutPen = some (.moveTo u.x u.y) := by
      intro t u
      unfold Turtle.walked
      split <;> rfl
    simp only [Turtle.move, hx, hy, hheading]
    split
    · exact .none
    · refine .some ⟨pen_turtles_iff.mpr ⟨rfl, rfl, rfl, hcolor⟩, ?_⟩
      exact (hwalked _ _).trans (hwalked _ _).symm
  turn {t t'} h d := by
    obtain ⟨hx, hy, hheading, hcolor⟩ := pen_turtles_iff.mp h
    exact pen_turtles_iff.mpr ⟨hx, hy, congrArg (· + d) hheading, hcolor⟩
  head {t t'} h d := by
    obtain ⟨hx, hy, -, hcolor⟩ := pen_turtles_iff.mp h
    exact pen_turtles_iff.mpr ⟨hx, hy, rfl, hcolor⟩
  placeX {t t'} h d := by
    obtain ⟨-, hy, hheading, hcolor⟩ := pen_turtles_iff.mp h
    refine ⟨pen_turtles_iff.mpr ⟨rfl, hy, hheading, hcolor⟩, ?_⟩
    simp only [Drawn, hy]
  placeY {t t'} h d := by
    obtain ⟨hx, -, hheading, hcolor⟩ := pen_turtles_iff.mp h
    refine ⟨pen_turtles_iff.mpr ⟨hx, rfl, hheading, hcolor⟩, ?_⟩
    simp only [Drawn, hx]
  pen {t t'} h down := ⟨pen_turtles_iff.mpr (pen_turtles_iff.mp h), rfl⟩
  color {t t'} h n := by
    obtain ⟨hx, hy, hheading, -⟩ := pen_turtles_iff.mp h
    exact ⟨pen_turtles_iff.mpr ⟨hx, hy, hheading, rfl⟩, rfl⟩

theorem place_drawn_walked {t t' : Turtle} (hpen : t'.penDown = t.penDown) (u u' : Turtle) :
    place.Drawn (t.walked u) (t'.walked u') := by
  unfold Turtle.walked
  rw [hpen]
  split <;> rfl

/-- Turtles in different places look in the same direction, and so one can walk if the other can. -/
theorem steerable_place : Steerable place.Turtles place.Drawn where
  walk {t t'} h distance offset := by
    obtain ⟨hheading, hpen, hcolor⟩ := place_turtles_iff.mp h
    simp only [Turtle.move, hheading]
    split
    · exact .none
    · exact .some ⟨place_turtles_iff.mpr ⟨rfl, hpen, hcolor⟩, place_drawn_walked hpen _ _⟩
  turn {t t'} h d := by
    obtain ⟨hheading, hpen, hcolor⟩ := place_turtles_iff.mp h
    exact place_turtles_iff.mpr ⟨congrArg (· + d) hheading, hpen, hcolor⟩
  head {t t'} h d := by
    obtain ⟨-, hpen, hcolor⟩ := place_turtles_iff.mp h
    exact place_turtles_iff.mpr ⟨rfl, hpen, hcolor⟩
  placeX {t t'} h d := ⟨place_turtles_iff.mpr (place_turtles_iff.mp h), rfl⟩
  placeY {t t'} h d := ⟨place_turtles_iff.mpr (place_turtles_iff.mp h), rfl⟩
  pen {t t'} h down := by
    obtain ⟨hheading, -, hcolor⟩ := place_turtles_iff.mp h
    exact ⟨place_turtles_iff.mpr ⟨hheading, rfl, hcolor⟩, rfl⟩
  color {t t'} h n := by
    obtain ⟨hheading, hpen, -⟩ := place_turtles_iff.mp h
    exact ⟨place_turtles_iff.mpr ⟨hheading, hpen, rfl⟩, rfl⟩

end Mask

/-! ## Queries -/

/-- The queries in an expression. -/
def Expr.queries : Expr → List Query
  | .query q => [q]
  | .numeric _ l r => l.queries ++ r.queries
  | .logic _ l r => l.queries ++ r.queries
  | .negation e => e.queries
  | _ => []

mutual

/-- The queries in a statement, and in its block or body. -/
def Stmt.queries : Stmt → List Query
  | .command _ operands _ => operands.flatMap Expr.queries
  | .ifThen c block => c.queries ++ Stmt.allQueries block
  | .whileDo c block => c.queries ++ Stmt.allQueries block
  | .define _ _ body => Stmt.allQueries body
  | .call _ arguments => arguments.flatMap Expr.queries
  | .foreign _ => []

/-- The queries in several statements. -/
def Stmt.allQueries : List Stmt → List Query
  | [] => []
  | s :: rest => s.queries ++ Stmt.allQueries rest

end

section

variable {env env' : Environment}
  (hlookup : ∀ name, env'.lookup? name = env.lookup? name)

include hlookup

theorem Expr.eval_of_queries {e : Expr}
    (h : ∀ q ∈ e.queries, env'.turtle.query q = env.turtle.query q) :
    e.eval env' = e.eval env := by
  induction e with
  | «variable» name => simp only [eval, hlookup]
  | query q =>
    have hq := h q List.mem_cons_self
    simp only [eval, hq]
  | numeric op l r ihl ihr =>
    obtain ⟨hl, hr⟩ := List.forall_mem_append.mp h
    simp only [eval, ihl hl, ihr hr]
  | logic op l r ihl ihr =>
    obtain ⟨hl, hr⟩ := List.forall_mem_append.mp h
    simp only [eval, ihl hl, ihr hr]
  | negation e ih => simp only [eval, ih h]
  | _ => rfl

theorem Expr.evalAll_of_queries {es : List Expr}
    (h : ∀ q ∈ es.flatMap Expr.queries, env'.turtle.query q = env.turtle.query q) :
    Expr.evalAll env' es = Expr.evalAll env es := by
  induction es with
  | nil => rfl
  | cons e es ih =>
    rw [List.flatMap_cons] at h
    obtain ⟨he, hes⟩ := List.forall_mem_append.mp h
    simp only [evalAll, Expr.eval_of_queries hlookup he, ih hes]

theorem operandValue_of_queries {operands : List Expr}
    (h : ∀ q ∈ operands.flatMap Expr.queries, env'.turtle.query q = env.turtle.query q) :
    operandValue env' operands = operandValue env operands := by
  cases operands with
  | nil => rfl
  | cons e es =>
    rw [List.flatMap_cons] at h
    have he := Expr.eval_of_queries hlookup (List.forall_mem_append.mp h).1
    simp only [operandValue, he]

end

/-! ## Machines -/

/-- Two machines differ in what is hidden, and in the bodies of procedures as `Bodies` tells. -/
structure Masked (k : Mask) (Bodies : List Stmt → List Stmt → Prop) (m m' : Machine) : Prop where
  turtle : k.Turtles m.env.turtle m'.env.turtle
  globals : m'.env.globals = m.env.globals
  scopes : m'.env.scopes = m.env.scopes
  procedures : ∀ name, Option.Rel
    (fun p p' : Procedure => p'.parameters = p.parameters ∧ Bodies p.body p'.body)
    (m.env.procedures.lookup? name) (m'.env.procedures.lookup? name)
  primitives : m'.primitives.toList.filterMap k.primitive =
    m.primitives.toList.filterMap k.primitive

namespace Masked

variable {k : Mask} {Bodies : List Stmt → List Stmt → Prop} {m m' : Machine}
  (h : Masked k Bodies m m')

include h

theorem lookup? (name : Option String) : m'.env.lookup? name = m.env.lookup? name := by
  simp only [Environment.lookup?, h.globals, h.scopes]

theorem query {q : Query} (hq : k.Shows q) : m'.env.turtle.query q = m.env.turtle.query q :=
  hq _ _ h.turtle

theorem eval {e : Expr} (he : ∀ q ∈ e.queries, k.Shows q) : e.eval m'.env = e.eval m.env :=
  Expr.eval_of_queries h.lookup? fun q hq => h.query (he q hq)

/-- A step on the environment that may draw something leaves the machines alike. -/
theorem afterEnv {env env' : Environment} {drawn drawn' : Option Primitive}
    (hturtle : k.Turtles env.turtle env'.turtle) (hglobals : env'.globals = env.globals)
    (hscopes : env'.scopes = env.scopes) (hprocedures : env.procedures = m.env.procedures)
    (hprocedures' : env'.procedures = m'.env.procedures)
    (hdrawn : Option.Rel k.Drawn drawn drawn') :
    Masked k Bodies (m.after env drawn) (m'.after env' drawn') := by
  obtain ⟨-, -, -, hlookup, hprimitives⟩ := h
  rw [← hprocedures, ← hprocedures'] at hlookup
  cases hdrawn with
  | none => exact ⟨hturtle, hglobals, hscopes, hlookup, hprimitives⟩
  | some hdrawn =>
    refine ⟨hturtle, hglobals, hscopes, hlookup, ?_⟩
    rw [Mask.Drawn] at hdrawn
    simp only [Machine.after, Array.toList_push, List.filterMap_append, hprimitives,
      List.filterMap_cons, hdrawn]

theorem assign (name : Option String) (v : Value) :
    (m'.env.assign name v).globals = (m.env.assign name v).globals ∧
      (m'.env.assign name v).scopes = (m.env.assign name v).scopes := by
  simp only [Environment.assign, h.scopes]
  split
  · split
    · exact ⟨h.globals, rfl⟩
    · exact ⟨congrArg (Bindings.insert · _ v) h.globals, h.scopes⟩
  · exact ⟨congrArg (Bindings.insert · _ v) h.globals, h.scopes⟩

theorem after (hsteer : Steerable k.Turtles k.Drawn) (v : Verb) (operands : List Expr)
    (target : Option String) (hoperands : ∀ q ∈ operands.flatMap Expr.queries, k.Shows q) :
    Agreed Eq (fun r r' => Masked k Bodies (m.after r.1 r.2) (m'.after r'.1 r'.2))
      (perform m.env v operands target) (perform m'.env v operands target) := by
  have hvalue : operandValue m'.env operands = operandValue m.env operands :=
    operandValue_of_queries h.lookup? fun q hq => h.query (hoperands q hq)
  have hoperand : Agreed Eq Eq (operandValue m.env operands) (operandValue m'.env operands) :=
    .of_eq (fun _ => rfl) (fun _ => rfl) hvalue
  have hlookup := optionRel_eq_iff.mpr (h.lookup? target)
  refine (perform_alike hsteer .same h.turtle v hoperand hlookup fun _ => rfl).agreed
    (fun _ => rfl) ?_ ?_
  · intro t t' drawn drawn' ht hdrawn
    exact h.afterEnv ht h.globals h.scopes rfl rfl hdrawn
  · rintro value _ rfl
    obtain ⟨hglobals, hscopes⟩ := h.assign target value
    refine h.afterEnv ?_ hglobals hscopes ?_ ?_ .none
    · simpa only [Environment.turtle_assign] using h.turtle
    · exact m.env.procedures_assign target value
    · exact m'.env.procedures_assign target value

theorem define (name : String) (parameters : List String) {body body' : List Stmt}
    (hbody : Bodies body body') :
    Masked k Bodies (m.define name ⟨parameters, body⟩) (m'.define name ⟨parameters, body'⟩) :=
  ⟨h.turtle, h.globals, h.scopes, rel_lookup?_insert h.procedures name ⟨rfl, hbody⟩, h.primitives⟩

theorem push (scope : Scope) : Masked k Bodies (m.pushScope scope) (m'.pushScope scope) :=
  ⟨h.turtle, h.globals, congrArg (scope :: ·) h.scopes, h.procedures, h.primitives⟩

theorem pop : Masked k Bodies m.popScope m'.popScope :=
  ⟨h.turtle, h.globals, congrArg List.tail h.scopes, h.procedures, h.primitives⟩

theorem enterCall (name : String) (arguments : List Expr)
    (harguments : ∀ q ∈ arguments.flatMap Expr.queries, k.Shows q) :
    Agreed Eq (fun call call' => call'.1 = call.1 ∧ Bodies call.2 call'.2)
      (enterCall m.env name arguments) (enterCall m'.env name arguments) := by
  have hvalues : Expr.evalAll m'.env arguments = Expr.evalAll m.env arguments :=
    Expr.evalAll_of_queries h.lookup? fun q hq => h.query (harguments q hq)
  have harguments : Agreed Eq Eq (Expr.evalAll m.env arguments) (Expr.evalAll m'.env arguments) :=
    .of_eq (fun _ => rfl) (fun _ => rfl) hvalues
  obtain ⟨f, hr, hr'⟩ | ⟨p, p', vs, _, ⟨hparameters, hbody⟩, rfl, -, -, hr, hr'⟩ :=
    enterCall_alike rfl (h.procedures name) (fun hp => congrArg List.length hp.1) harguments
  · rw [hr, hr']
    exact .error rfl
  · rw [hr, hr', hparameters]
    exact .ok ⟨rfl, hbody⟩

end Masked

/-! ## The same script -/

/-- The same statements, with no query about what is hidden. -/
def Mask.Unasked (k : Mask) (ss ss' : List Stmt) : Prop :=
  ss' = ss ∧ ∀ q ∈ Stmt.allQueries ss, k.Shows q

theorem Mask.Unasked.matched {k : Mask} {ss ss' : List Stmt} (h : k.Unasked ss ss') :
    List.Forall₂ (fun s s' => s' = s ∧ ∀ q ∈ s.queries, k.Shows q) ss ss' := by
  obtain ⟨rfl, hqueries⟩ := h
  induction ss' with
  | nil => exact .nil
  | cons s rest ih =>
    obtain ⟨hfirst, hrest⟩ := List.forall_mem_append.mp hqueries
    exact .cons ⟨rfl, hfirst⟩ (ih hrest)

/-- A script that does not ask about what is hidden does the same whatever that is. -/
theorem lockstep_masked {k : Mask} (hsteer : Steerable k.Turtles k.Drawn) :
    Lockstep (fun _ : Unit => fun s s' => s' = s ∧ ∀ q ∈ s.queries, k.Shows q)
      (fun _ => Masked k k.Unasked) Eq where
  tooDeep := rfl
  outOfSteps := rfl
  named := by
    rintro _ s _ why _ ⟨rfl, -⟩ rfl
    rfl
  step := by
    rintro _ _ s m m' ⟨rfl, hqueries⟩ hm
    have heval : ∀ e : Expr, (∀ q ∈ e.queries, k.Shows q) →
        Agreed (SameFault Eq) SameDecision (e.eval m.env) (e.eval m'.env) := by
      intro e he
      refine .of_eq ?_ ?_ (hm.eval he) <;> exact fun _ => rfl
    cases s with
    | command v operands target => exact .command (hm.after hsteer v operands target hqueries)
    | ifThen c block =>
      obtain ⟨hc, hblock⟩ := List.forall_mem_append.mp hqueries
      exact .ifThen (heval c hc) (Mask.Unasked.matched ⟨rfl, hblock⟩)
    | whileDo c block =>
      obtain ⟨hc, hblock⟩ := List.forall_mem_append.mp hqueries
      exact .whileDo (heval c hc) (Mask.Unasked.matched ⟨rfl, hblock⟩)
    | define name parameters body => exact .define (hm.define name parameters ⟨rfl, hqueries⟩)
    | call name arguments =>
      have hentered := hm.enterCall name arguments hqueries
      refine .call ?_
      generalize enterCall m.env name arguments = r at hentered
      generalize enterCall m'.env name arguments = r' at hentered
      cases hentered with
      | error hf => exact .error (congrArg Halt.ofFault hf)
      | @ok call call' hcall =>
        obtain ⟨hscope, hbody⟩ := hcall
        refine .ok ⟨(), hbody.matched, ?_, fun _ _ h => h.pop⟩
        rw [hscope]
        exact hm.push call.1
    | foreign shape => exact .foreign rfl

end TurtleGraphics
