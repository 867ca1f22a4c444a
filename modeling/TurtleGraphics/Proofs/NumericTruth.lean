import TurtleGraphics.Proofs.Renaming

/-!
# TurtleGraphics.Proofs.NumericTruth

Truth values are no more than numbers to a script.

* `Expr.encode`, `Stmt.encode` : one and zero in place of the words for true and false.
* `Value.SameNumber`           : two values are read as the same number.
* `Expr.eval_encode`           : an expression has such values where its variables have.
* `Encoded`, `lockstep_encoded` : machines whose variables have such values do the same.
* `run_encode`                 : so does a script on environments of which this is true.

Every place that takes a value reads it as a number or as a truth value, and a truth value is read
off the number. The one place where the difference shows is the text of an error: it shows the
statement at fault.
-/

namespace TurtleGraphics

/-! ## Encoding -/

/-- An expression with numbers in place of truth values. -/
def Expr.encode : Expr → Expr
  | .boolean true => .number 1.0
  | .boolean false => .number 0.0
  | .numeric op l r => .numeric op l.encode r.encode
  | .logic op l r => .logic op l.encode r.encode
  | .negation e => .negation e.encode
  | e => e

mutual

/-- A statement with numbers in place of truth values, also in its block or body. -/
def Stmt.encode : Stmt → Stmt
  | .command v operands target => .command v (operands.map Expr.encode) target
  | .ifThen c block => .ifThen c.encode (Stmt.encodeAll block)
  | .whileDo c block => .whileDo c.encode (Stmt.encodeAll block)
  | .define name parameters body => .define name parameters (Stmt.encodeAll body)
  | .call name arguments => .call name (arguments.map Expr.encode)
  | .foreign shape => .foreign shape

/-- Statements with numbers in place of truth values. -/
def Stmt.encodeAll : List Stmt → List Stmt
  | [] => []
  | s :: rest => s.encode :: Stmt.encodeAll rest

end

theorem Stmt.matched_encodeAll (ss : List Stmt) :
    List.Forall₂ (fun s s' => s' = s.encode) ss (Stmt.encodeAll ss) := by
  induction ss with
  | nil => exact .nil
  | cons s rest ih => exact .cons rfl ih

/-! ## Values -/

/-- Two values are read as the same number, with the same sign if it is zero. -/
def Value.SameNumber (v v' : Value) : Prop := v'.toNumber = v.toNumber

theorem sameNumber_refl (v : Value) : v.SameNumber v := rfl

theorem sameNumbers : SameNumbers Value.SameNumber where
  toNumber := id
  refl _ := rfl

/-- A truth value is read off the number. -/
theorem Value.truthy_eq (v : Value) : v.truthy = (v.toNumber != 0.0) := by
  cases v with
  | number x => rfl
  | truth b => cases b <;> decide

theorem Value.SameNumber.truthy {v v' : Value} (h : v.SameNumber v') : v'.truthy = v.truthy := by
  rw [v.truthy_eq, v'.truthy_eq, h]

/-- Two tables bind the same names, and to values that are read as the same numbers. -/
def Bindings.SameNumbers {κ : Type} [DecidableEq κ] (b b' : Bindings κ Value) : Prop :=
  ∀ name, Option.Rel Value.SameNumber (b.lookup? name) (b'.lookup? name)

namespace Bindings.SameNumbers

variable {κ : Type} [DecidableEq κ] {b b' : Bindings κ Value}

theorem contains (h : b.SameNumbers b') (name : κ) : b'.contains name = b.contains name := by
  have hname := h name
  unfold Bindings.contains
  generalize b.lookup? name = found at hname
  generalize b'.lookup? name = found' at hname
  cases hname <;> rfl

theorem insert (h : b.SameNumbers b') (name : κ) {v v' : Value} (hv : v.SameNumber v') :
    (b.insert name v).SameNumbers (b'.insert name v') :=
  rel_lookup?_insert h name hv

theorem ofList (names : List κ) {vs vs' : List Value}
    (hvs : List.Forall₂ Value.SameNumber vs vs') :
    (Bindings.ofList (names.zip vs)).SameNumbers (Bindings.ofList (names.zip vs')) := by
  have hfold : ∀ b b' : Bindings κ Value, b.SameNumbers b' →
      ((names.zip vs).foldl (fun b entry => b.insert entry.1 entry.2) b).SameNumbers
        ((names.zip vs').foldl (fun b entry => b.insert entry.1 entry.2) b') := by
    induction hvs generalizing names with
    | nil =>
      intro b b' h
      simpa only [List.zip_nil_right, List.foldl_nil] using h
    | cons hv _ ih =>
      intro b b' h
      cases names with
      | nil => simpa only [List.zip_nil_left, List.foldl_nil] using h
      | cons name names => exact ih names _ _ (h.insert name hv)
  exact hfold _ _ fun _ => .none

end Bindings.SameNumbers

/-! ## Expressions -/

/-- An operator does alike if it does for operands that are alike. -/
theorem sameNumber_of_operands {r r' s s' : Except Fault Value}
    {op op' : Value → Value → Except Fault Value} :
    Agreed Eq Value.SameNumber r r' → Agreed Eq Value.SameNumber s s' →
    (∀ a a' b b', a.SameNumber a' → b.SameNumber b' →
      Agreed Eq Value.SameNumber (op a b) (op' a' b')) →
    Agreed Eq Value.SameNumber
      (match r with
        | .error f => .error f
        | .ok a =>
          match s with
          | .error f => .error f
          | .ok b => op a b)
      (match r' with
        | .error f => .error f
        | .ok a =>
          match s' with
          | .error f => .error f
          | .ok b => op' a b) := by
  intro hr hs hop
  cases hr with
  | error hf => exact .error hf
  | ok ha =>
    cases hs with
    | error hf => exact .error hf
    | ok hb => exact hop _ _ _ _ ha hb

section

variable {env env' : Environment} (hturtle : env'.turtle = env.turtle)
  (hlookup : ∀ name, Option.Rel Value.SameNumber (env.lookup? name) (env'.lookup? name))

include hturtle hlookup

theorem Expr.eval_encode (e : Expr) :
    Agreed Eq Value.SameNumber (e.eval env) (e.encode.eval env') := by
  induction e with
  | number x => exact .ok rfl
  | boolean b => cases b <;> exact .ok rfl
  | «variable» name =>
    have hname := hlookup (some name)
    simp only [encode, eval]
    generalize env.lookup? (some name) = found at hname
    generalize env'.lookup? (some name) = found' at hname
    cases hname with
    | none => exact .error rfl
    | some hv => exact .ok hv
  | query q =>
    simp only [encode, eval, hturtle]
    split
    · exact .error rfl
    · exact .ok rfl
  | numeric op l r ihl ihr =>
    refine sameNumber_of_operands ihl ihr ?_
    intro a a' b b' ha hb
    rw [Value.SameNumber] at ha hb
    rw [ha, hb]
    exact .of_eq (fun _ => rfl) sameNumber_refl rfl
  | logic op l r ihl ihr =>
    refine sameNumber_of_operands ihl ihr ?_
    intro a a' b b' ha hb
    rw [ha.truthy, hb.truthy]
    exact .of_eq (fun _ => rfl) sameNumber_refl rfl
  | negation e ih =>
    simp only [encode, eval]
    obtain ⟨f, _, he, he', rfl⟩ | ⟨a, a', he, he', ha⟩ := ih.error_or_ok
    · simp only [he, he']
      exact .error rfl
    · simp only [he, he', ha.truthy]
      exact .ok rfl
  | foreign s => exact .error rfl

theorem Expr.evalAll_encode (es : List Expr) :
    Agreed Eq (List.Forall₂ Value.SameNumber) (Expr.evalAll env es)
      (Expr.evalAll env' (es.map Expr.encode)) := by
  induction es with
  | nil => exact .ok .nil
  | cons e es ih =>
    simp only [List.map_cons, evalAll]
    obtain ⟨f, _, he, he', rfl⟩ | ⟨v, v', he, he', hv⟩ :=
      (e.eval_encode hturtle hlookup).error_or_ok
    · simp only [he, he']
      exact .error rfl
    · obtain ⟨f, _, hes, hes', rfl⟩ | ⟨vs, vs', hes, hes', hvs⟩ := ih.error_or_ok
      · simp only [he, he', hes, hes']
        exact .error rfl
      · simp only [he, he', hes, hes']
        exact .ok (.cons hv hvs)

theorem operandValue_encode (operands : List Expr) :
    Agreed Eq Value.SameNumber (operandValue env operands)
      (operandValue env' (operands.map Expr.encode)) := by
  cases operands with
  | nil => exact .error rfl
  | cons e es =>
    simp only [List.map_cons, operandValue]
    obtain ⟨f, _, he, he', rfl⟩ | ⟨v, v', he, he', hv⟩ :=
      (e.eval_encode hturtle hlookup).error_or_ok
    · simp only [he, he']
      exact .error rfl
    · simp only [he, he']
      exact .ok hv

end

/-! ## Errors -/

/-- What is made of tokens is shown alike if these are. -/
theorem shownAlike_of_tokens {α : Type} {r r' : Except Misfit (List Token)}
    {f f' : List Token → α} :
    ShownAlike r r' →
    ShownAlike
      (match r with
        | .error m => .error m
        | .ok ts => .ok (f ts))
      (match r' with
        | .error m => .error m
        | .ok ts => .ok (f' ts)) := by
  intro hr
  cases hr with
  | error hm => exact .error hm
  | ok _ => exact .ok trivial

/-- What is made of tokens that follow one another is shown alike if both of these are. -/
theorem shownAlike_of_both {r r' s s' : Except Misfit (List Token)}
    {join join' : List Token → List Token → List Token} :
    ShownAlike r r' → ShownAlike s s' →
    ShownAlike
      (match r with
        | .error m => .error m
        | .ok ts =>
          match s with
          | .error m => .error m
          | .ok us => .ok (join ts us))
      (match r' with
        | .error m => .error m
        | .ok ts =>
          match s' with
          | .error m => .error m
          | .ok us => .ok (join' ts us)) := by
  intro hr hs
  cases hr with
  | error hm => exact .error hm
  | ok _ =>
    cases hs with
    | error hm => exact .error hm
    | ok _ => exact .ok trivial

theorem Expr.tokens_encode (e : Expr) : ShownAlike e.tokens e.encode.tokens := by
  induction e with
  | boolean b => cases b <;> exact .ok trivial
  | numeric op l r ihl ihr => exact shownAlike_of_both ihl ihr
  | logic op l r ihl ihr => exact shownAlike_of_both ihl ihr
  | negation e ih => exact shownAlike_of_tokens ih
  | _ => exact .of_eq (fun _ => rfl) (fun _ => trivial) rfl

theorem Expr.allTokens_encode (es : List Expr) :
    ShownAlike (allTokens es) (allTokens (es.map encode)) := by
  induction es with
  | nil => exact .ok trivial
  | cons e es ih =>
    exact shownAlike_of_both e.tokens_encode ih

theorem Stmt.summary_encode (s : Stmt) : ShownAlike s.summary s.encode.summary := by
  have hheader : ShownAlike s.header s.encode.header := by
    cases s with
    | command v operands target =>
      cases target with
      | none => exact shownAlike_of_tokens (Expr.allTokens_encode operands)
      | some name => exact shownAlike_of_tokens (Expr.allTokens_encode operands)
    | ifThen c block => exact shownAlike_of_tokens c.tokens_encode
    | whileDo c block => exact shownAlike_of_tokens c.tokens_encode
    | define name parameters body => exact .ok trivial
    | call name arguments => exact shownAlike_of_tokens (Expr.allTokens_encode arguments)
    | foreign shape => exact .error rfl
  exact shownAlike_of_tokens hheader

/-- Two runs end early for the same reason, which may be shown with a statement and its encoding. -/
inductive SameFailure : Halt → Halt → Prop where
  | same (why : Halt) : SameFailure why why
  | shown {f : Fault} {s : Stmt} {t t' : String} : s.summary = .ok t → s.encode.summary = .ok t' →
      SameFailure (.error ⟨f, some t⟩) (.error ⟨f, some t'⟩)

theorem SameFailure.inStatement {s s' : Stmt} {why why' : Halt} (hs : s' = s.encode)
    (h : SameFailure why why') : SameFailure (why.inStatement s) (why'.inStatement s') := by
  subst hs
  cases h with
  | shown ht ht' => exact .shown ht ht'
  | same =>
    unfold Halt.inStatement
    split
    · obtain ⟨_, _, ht, ht', rfl⟩ | ⟨_, _, ht, ht', -⟩ := s.summary_encode.error_or_ok
      · simp only [ht, ht']
        exact .same _
      · simp only [ht, ht']
        exact .shown ht ht'
    · exact .same _

/-! ## Machines -/

/-- Machines that have come equally far, one of them with numbers in place of truth values in its
procedures, and perhaps in its variables. -/
structure Encoded (m m' : Machine) : Prop where
  turtle : m'.env.turtle = m.env.turtle
  globals : m.env.globals.SameNumbers m'.env.globals
  scopes : List.Forall₂ Bindings.SameNumbers m.env.scopes m'.env.scopes
  procedures : ∀ name, Option.Rel
    (fun p p' : Procedure => p'.parameters = p.parameters ∧ p'.body = Stmt.encodeAll p.body)
    (m.env.procedures.lookup? name) (m'.env.procedures.lookup? name)
  primitives : m'.primitives = m.primitives

namespace Encoded

variable {m m' : Machine} (h : Encoded m m')

include h

theorem lookup? (name : Option String) :
    Option.Rel Value.SameNumber (m.env.lookup? name) (m'.env.lookup? name) := by
  obtain ⟨-, hglobals, hscopes, -, -⟩ := h
  cases name with
  | none => exact hglobals none
  | some n =>
    simp only [Environment.lookup?]
    generalize m.env.scopes = scopes at hscopes
    generalize m'.env.scopes = scopes' at hscopes
    cases hscopes with
    | nil => exact hglobals _
    | @cons scope scope' _ _ hscope _ =>
      have hparameter := hscope n
      simp only
      generalize scope.lookup? n = found at hparameter
      generalize scope'.lookup? n = found' at hparameter
      cases hparameter with
      | none => exact hglobals _
      | some hv => exact .some hv

theorem assign (name : Option String) {v v' : Value} (hv : v.SameNumber v') :
    (m.env.assign name v).globals.SameNumbers (m'.env.assign name v').globals ∧
      List.Forall₂ Bindings.SameNumbers (m.env.assign name v).scopes
        (m'.env.assign name v').scopes := by
  obtain ⟨-, hglobals, hscopes, -, -⟩ := h
  cases name with
  | none => exact ⟨hglobals.insert none hv, hscopes⟩
  | some n =>
    generalize hs : m.env.scopes = scopes at hscopes
    generalize hs' : m'.env.scopes = scopes' at hscopes
    cases hscopes with
    | nil =>
      simp only [Environment.assign, Environment.assignGlobal, hs, hs']
      exact ⟨hglobals.insert _ hv, .nil⟩
    | @cons scope scope' _ _ hscope houter =>
      have hcontains := hscope.contains n
      by_cases hbound : scope.contains n = true
      · rw [assign_of_bound hs hbound, assign_of_bound hs' (hcontains ▸ hbound)]
        exact ⟨hglobals, .cons (hscope.insert n hv) houter⟩
      · rw [assign_of_free hs hbound, assign_of_free hs' (hcontains ▸ hbound)]
        exact ⟨hglobals.insert _ hv, hs ▸ hs' ▸ .cons hscope houter⟩

theorem eval (e : Expr) :
    Agreed (SameFault SameFailure) SameDecision (e.eval m.env) (e.encode.eval m'.env) := by
  obtain ⟨f, _, he, he', rfl⟩ | ⟨v, v', he, he', hv⟩ :=
    (e.eval_encode h.turtle h.lookup?).error_or_ok
  · rw [he, he']
    exact .error (.same _)
  · rw [he, he']
    exact .ok hv.truthy.symm

theorem after (v : Verb) (operands : List Expr) (target : Option String) :
    Agreed SameFailure (fun r r' => Encoded (m.after r.1 r.2) (m'.after r'.1 r'.2))
      (perform m.env v operands target)
      (perform m'.env v (operands.map Expr.encode) target) := by
  have hoperand := operandValue_encode h.turtle h.lookup? operands
  refine (perform_alike .same sameNumbers h.turtle.symm v hoperand (h.lookup? target)
    fun _ => rfl).agreed .same ?_ ?_
  · rintro t _ drawn drawn' rfl hdrawn
    obtain rfl := optionRel_eq_iff.mp hdrawn
    refine ⟨?_, ?_, ?_, ?_, ?_⟩
    · simp only [Machine.after_env]
    · simpa only [Machine.after_env] using h.globals
    · simpa only [Machine.after_env] using h.scopes
    · simpa only [Machine.after_env] using h.procedures
    · cases drawn' <;> simp only [Machine.after, h.primitives]
  · intro value value' hvalue
    obtain ⟨hglobals, hscopes⟩ := h.assign target hvalue
    refine ⟨?_, hglobals, hscopes, ?_, h.primitives⟩
    · simp only [Machine.after, Environment.turtle_assign, h.turtle]
    · simpa only [Machine.after, Environment.procedures_assign] using h.procedures

theorem define (name : String) (parameters : List String) (body : List Stmt) :
    Encoded (m.define name ⟨parameters, body⟩)
      (m'.define name ⟨parameters, Stmt.encodeAll body⟩) :=
  ⟨h.turtle, h.globals, h.scopes, rel_lookup?_insert h.procedures name ⟨rfl, rfl⟩, h.primitives⟩

theorem push {scope scope' : Scope} (hscope : scope.SameNumbers scope') :
    Encoded (m.pushScope scope) (m'.pushScope scope') :=
  ⟨h.turtle, h.globals, .cons hscope h.scopes, h.procedures, h.primitives⟩

theorem pop : Encoded m.popScope m'.popScope := by
  refine ⟨h.turtle, h.globals, ?_, h.procedures, h.primitives⟩
  have hscopes := h.scopes
  simp only [Machine.popScope, Environment.popScope]
  generalize m.env.scopes = scopes at hscopes
  generalize m'.env.scopes = scopes' at hscopes
  cases hscopes with
  | nil => exact .nil
  | cons _ houter => exact houter

theorem enterCall (name : String) (arguments : List Expr) :
    Agreed (SameFault SameFailure)
      (SameEntry (fun _ : Unit => fun s s' => s' = s.encode) (fun _ => Encoded) () m m')
      (enterCall m.env name arguments)
      (enterCall m'.env name (arguments.map Expr.encode)) := by
  have hvalues := Expr.evalAll_encode h.turtle h.lookup? arguments
  obtain ⟨f, hr, hr'⟩ | ⟨p, p', vs, vs', ⟨hparameters, hbody⟩, hsame, -, -, hr, hr'⟩ :=
    enterCall_alike (List.length_map _) (h.procedures name)
      (fun hp => congrArg List.length hp.1) hvalues
  · rw [hr, hr']
    exact .error (.same _)
  · rw [hr, hr', hparameters, hbody]
    refine .ok ⟨(), Stmt.matched_encodeAll p.body, ?_, fun _ _ hm => hm.pop⟩
    exact h.push (.ofList p.parameters hsame)

end Encoded

/-- A script and its encoding do the same. -/
theorem lockstep_encoded :
    Lockstep (fun _ : Unit => fun s s' => s' = s.encode) (fun _ => Encoded) SameFailure where
  tooDeep := .same _
  outOfSteps := .same _
  named := .inStatement
  step := by
    rintro ⟨⟩ s _ m m' rfl hm
    cases s with
    | command v operands target => exact .command (hm.after v operands target)
    | ifThen c block => exact .ifThen (hm.eval c) (Stmt.matched_encodeAll block)
    | whileDo c block => exact .whileDo (hm.eval c) (Stmt.matched_encodeAll block)
    | define name parameters body => exact .define (hm.define name parameters body)
    | call name arguments => exact .call (hm.enterCall name arguments)
    | foreign shape => exact .foreign (.same _)

/-! ## Runs -/

/-- A script and its encoding do the same in environments with equal turtles whose global variables
have the same names and are read as the same numbers. They come to the same end, with the same
error if with any, after the same primitives, and leave environments of which the same is true. -/
theorem run_encode (limits : Limits) (script : Script) (turtle : Turtle)
    {globals globals' : Globals} (h : globals.SameNumbers globals') :
    let here := (Interpreter.on ⟨turtle, globals, [], .empty⟩).run limits script
    let there := (Interpreter.on ⟨turtle, globals', [], .empty⟩).run limits
      (Stmt.encodeAll script)
    Option.Rel SameFailure here.2 there.2 ∧
      there.1.primitives = here.1.primitives ∧
      there.1.env.turtle = here.1.env.turtle ∧
      here.1.env.globals.SameNumbers there.1.env.globals := by
  intro here there
  have hstart : Encoded (Interpreter.started (.on ⟨turtle, globals, [], .empty⟩))
      (Interpreter.started (.on ⟨turtle, globals', [], .empty⟩)) :=
    ⟨rfl, h, .nil, fun _ => .none, rfl⟩
  have halike := lockstep_encoded.run (i := ()) (Stmt.matched_encodeAll script) hstart limits
  simp only [here, there, Interpreter.halt_run, Interpreter.primitives_run, Interpreter.env_run]
  obtain ⟨m, m', ho, ho', hm⟩ | ⟨why, why', m, m', ho, ho', hwhy, hm⟩ := halike.done_or_halted
  · rw [ho, ho']
    exact ⟨.none, congrArg Array.toList hm.primitives, hm.turtle, hm.globals⟩
  · rw [ho, ho']
    exact ⟨.some hwhy, congrArg Array.toList hm.primitives, hm.turtle, hm.globals⟩

/-- A truth value goes through a condition, a parameter and the index of a colour. -/
theorem run_encode_through_call :
    let here := (Interpreter.on (.fresh (.startingAt 0.0 0.0))).run ⟨9, 99⟩
      [.define "P" ["a"] [.command .setPenColor [.variable "a"] none],
        .ifThen (.boolean true) [.call "P" [.boolean false]]]
    let there := (Interpreter.on (.fresh (.startingAt 0.0 0.0))).run ⟨9, 99⟩
      [.define "P" ["a"] [.command .setPenColor [.variable "a"] none],
        .ifThen (.number 1.0) [.call "P" [.number 0.0]]]
    there.1.primitives = here.1.primitives ∧ here.2.isNone = true := by
  intro here there
  have hencode := @run_encode ⟨9, 99⟩
    [.define "P" ["a"] [.command .setPenColor [.variable "a"] none],
      .ifThen (.boolean true) [.call "P" [.boolean false]]] (.startingAt 0.0 0.0) .empty .empty
    fun _ => .none
  exact ⟨hencode.2.1, by decide +kernel⟩

end TurtleGraphics
