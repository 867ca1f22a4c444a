import Mathlib.Data.Bool.AllAny
import Mathlib.Data.Finset.Card
import TurtleGraphics.Proofs.Concatenation
import TurtleGraphics.Proofs.Endings
import TurtleGraphics.Proofs.ProcedureTables
import TurtleGraphics.Proofs.WrongToken

/-!
# TurtleGraphics.Proofs.Records

The log tells what has happened to a script.

* `Script.signatures`           : the definitions of a script with their numbers of parameters.
* `Declarations.AcceptsHeading` : a `TO` whose heading is accepted and that has an `END`.
* `parse_stops`                 : what has been declared when a parse fails.
* `Moment.Behind.events`        : what has been defined when a run has come so far.
* `Moment.completed_of_done`, `Moment.failed_of_error` : how far a run has come when it ends.
* `Debugs`                      : events with the lines in which they are on record.
* `Trail`                       : the lines on a script for each way in which it ends.
* `runScript_logs`              : so these are on record, and the failure if there is one.

The declarations of a parse that fails are those of the statements that it has read, and that of the
definition in which it has failed if it had got as far as the body. The definitions of a run that
fails are those among the statements completed before: there are none in blocks or bodies, and a
definition does not fail.
-/

namespace TurtleGraphics

/-! ## The procedures of a script -/

namespace Script

/-- The procedures that a script defines with their numbers of parameters, in the order of the
definitions. -/
def signatures : Script → List (String × Nat)
  | [] => []
  | .define name parameters _ :: rest => (name, parameters.length) :: signatures rest
  | _ :: rest => signatures rest

theorem reverse_declarations (script : Script) :
    (declarations [] script).reverse = script.signatures := by
  induction script with
  | nil => rfl
  | cons s script ih =>
    cases s with
    | define name parameters body =>
      rw [declarations, declarations_eq_append, List.reverse_append, ih, signatures]
      rfl
    | _ => exact ih

theorem Item.declarations {d d₁ : Declarations} {ts : List Token} {s : Stmt}
    (h : Item d ts s d₁) (script : Script) :
    Script.declarations d (s :: script) = Script.declarations d₁ script := by
  cases h with
  | statement hs => exact declarations_cons_of_derived hs script
  | definition _ _ _ _ _ _ => simp only [Script.declarations, List.length_map]

theorem defined_append (a b : Script) : defined (a ++ b) = defined a ++ defined b := by
  induction a with
  | nil => rfl
  | cons s a ih =>
    cases s with
    | define name parameters body => simp only [List.cons_append, defined, ih]
    | _ => exact ih

/-- The parser's table has one entry for each name that is defined. -/
theorem length_entries_declarations (script : Script) :
    (Declarations.signatures (declarations [] script)).entries.length =
      script.defined.toFinset.card := by
  have hnames : (Declarations.signatures (declarations [] script)).names.toFinset =
      script.defined.toFinset := by
    ext name
    rw [List.mem_toFinset, List.mem_toFinset, mem_names_signatures]
  rw [← hnames, Declarations.signatures,
    List.toFinset_card_of_nodup (Bindings.nodup_names_ofList _), Bindings.names, List.length_map]

end Script

/-! ## Parses that fail -/

/-- A `TO` with a heading that is accepted: behind it stand the name of the procedure, parameters
none of which is there twice, and somewhere behind these an `END`. -/
inductive Declarations.AcceptsHeading (d : Declarations) : List Token → String × Nat → Prop where
  | intro {start name : String} {ps rest : List Token} :
      Keyword.of? start = some .procedureStart → isReserved name = false →
      (∀ t ∈ ps, d.AllowsParameter name t) → (ps.map Token.text).Nodup →
      (∀ t ∈ rest.head?, ¬ d.AllowsParameter name t) → (∃ t ∈ rest, isEnd t = true) →
      AcceptsHeading d (.ofWord start :: .ofWord name :: (ps ++ rest)) (name, ps.length)

section

variable {d d₁ : Declarations} {t : Token} {ts : List Token} {entry : String × Nat} {limit : Nat}
  {s : Stop}

theorem acceptsHeading_of_readHeading {h : Heading}
    (hstart : t.kind = .word ∧ Keyword.of? t.text = some .procedureStart)
    (hread : readHeading d ts = .ok h) :
    d.AcceptsHeading (t :: ts) (h.name, h.parameters.length) := by
  obtain ⟨ps, bs, us, stop, rfl, hrest, -, hname, hparameters, hnodup, hall, hstop⟩ :=
    readHeading_sound hread
  have hhead := (readHeading_rest hread).1
  have hend : ∃ t ∈ h.rest, isEnd t = true :=
    ⟨.ofWord stop, by simp [hrest], by simp [isEnd, hstop]⟩
  have hnext : ∀ t ∈ h.rest.head?, ¬ d.AllowsParameter h.name t := by
    intro u hu hallowed
    obtain ⟨tail, htail⟩ := List.head?_eq_some_iff.mp hu
    have hnot := hhead u tail htail
    rw [isParameter_iff.mpr hallowed] at hnot
    cases hnot
  rw [hparameters] at hnodup ⊢
  rw [Expr.eq_ofWord hstart.1, List.length_map]
  exact .intro hstart.2 hname hall hnodup hnext hend

theorem readHeading_of_acceptsHeading (h : d.AcceptsHeading (t :: ts) entry) :
    (t.kind = .word ∧ Keyword.of? t.text = some .procedureStart) ∧
      ∃ g, readHeading d ts = .ok g ∧ (g.name, g.parameters.length) = entry := by
  cases h with
  | @intro start name ps rest hstart hname hall hnodup hnext hend =>
    refine ⟨⟨rfl, hstart⟩, ?_⟩
    obtain ⟨stop, hmem, hstop⟩ := hend
    obtain ⟨u, tail, rfl⟩ := List.exists_cons_of_ne_nil (List.ne_nil_of_mem hmem)
    have hu : isParameter d name u = false := by
      rw [← Bool.not_eq_true, isParameter_iff]
      exact hnext u rfl
    have hps := readParameters_complete hu tail ps [] hall hnodup
    obtain ⟨n, hn⟩ := Option.isSome_iff_exists.mp
      ((List.findIdx?_isSome.trans (List.any_of_mem hmem hstop)))
    refine ⟨⟨name, ps.map Token.text, n, u :: tail⟩, ?_, by simp⟩
    rw [readHeading, if_pos (Token.kind_ofWord name), Token.text_ofWord,
      if_neg (by simp [hname]), hps]
    simp only [hn]
    rfl

/-- The heading of a definition is accepted if the reader of headings gets through it. -/
theorem acceptsHeading_cons_iff :
    d.AcceptsHeading (t :: ts) entry ↔
      (t.kind = .word ∧ Keyword.of? t.text = some .procedureStart) ∧
        ∃ h, readHeading d ts = .ok h ∧ (h.name, h.parameters.length) = entry := by
  constructor
  · exact readHeading_of_acceptsHeading
  · rintro ⟨hstart, h, hread, rfl⟩
    exact acceptsHeading_of_readHeading hstart hread

/-- A statement of the top level that cannot be read leaves the declarations of before, and that of
its own heading if it is a definition with a heading that is accepted. -/
theorem declared_of_readTop_error (hread : Stmt.readTop limit d ts = (.error s, d₁)) :
    ∃ pending : Option (String × Nat),
      (∀ entry, entry ∈ pending ↔ d.AcceptsHeading ts entry) ∧ d₁ = pending.toList ++ d := by
  cases ts with
  | nil =>
    cases hread
    exact ⟨none, fun entry => ⟨nofun, nofun⟩, rfl⟩
  | cons t ts =>
    simp only [acceptsHeading_cons_iff]
    rw [Stmt.readTop] at hread
    split at hread
    · rename_i hstart
      simp only [readDefinition] at hread
      split at hread
      · rename_i hheading
        cases hread
        exact ⟨none, by simp [hheading], rfl⟩
      · rename_i h hheading
        have hd₁ : d₁ = (h.name, h.parameters.length) :: d := by
          split at hread <;> cases hread
          rfl
        exact ⟨some (h.name, h.parameters.length), by simp [hstart, hheading], hd₁⟩
    · rename_i hno
      obtain ⟨-, rfl⟩ := Prod.mk.inj hread
      exact ⟨none, by simp [hno], rfl⟩

/-- A reading of statements of the top level stops in the statement that cannot be read. What stands
before is a script. -/
theorem stops_of_topSequence {n : Nat} (hd : d.Unreserved) (hn : n = ts.length)
    (h : topSequence limit d n ts = (.error s, d₁)) :
    ∃ used script rest, ts = used ++ rest ∧ Script.Derived d used script ∧
      Stmt.readTop limit (Script.declarations d script) rest = (.error s, d₁) := by
  induction n using Nat.strongRecOn generalizing d ts with
  | ind n ih =>
    subst hn
    cases ts with
    | nil =>
      rw [List.length_nil, topSequence] at h
      cases h
    | cons t ts =>
      rw [List.length_cons, topSequence] at h
      split at h
      · rename_i hfirst
        cases h
        exact ⟨[], [], t :: ts, rfl, .nil, hfirst⟩
      · rename_i s₁ rest₁ d₂ hfirst
        obtain ⟨us, hus, hitem, hd₂⟩ := Script.item_of_readTop hd hfirst
        have hlength := congrArg List.length hus
        have hpos := List.length_pos_iff.mpr hitem.ne_nil
        rw [List.length_cons, List.length_append] at hlength
        have hleft : ts.length - (ts.length - rest₁.length) = rest₁.length := by omega
        simp only at h
        rw [if_pos (by omega)] at h
        split at h
        · rename_i hrest
          cases h
          obtain ⟨used, script, rest, rfl, hscript, hstop⟩ :=
            ih _ (Nat.lt_succ_of_le (Nat.sub_le _ _)) hd₂ hleft hrest
          refine ⟨us ++ used, s₁ :: script, rest, by rw [hus, List.append_assoc],
            hitem.derived hscript, ?_⟩
          rwa [hitem.declarations]
        · cases h

/-- A parse that fails has read some statements of the top level and stops in the next one. The
procedures that it has declared are those that the statements define and, if the next one is a
definition with a heading that is accepted, the one of that heading. -/
theorem parse_stops {tokens : List Token} {e : ParseError} {declared : Declarations}
    (h : parse limit tokens = (.error (.error e), declared)) :
    ∃ used script rest stop pending, tokens = used ++ rest ∧ Script.Derived [] used script ∧
      (Stmt.readTop limit (Script.declarations [] script) rest).1 = .error stop ∧
      stop.locate tokens.length = .error e ∧
      (∀ entry, entry ∈ pending ↔
        (Script.declarations [] script).AcceptsHeading rest entry) ∧
      declared.reverse = script.signatures ++ Option.toList pending := by
  simp only [parse] at h
  split at h
  · rename_i stop d₁ hs
    obtain ⟨hstop, rfl⟩ := Prod.mk.inj h
    obtain ⟨used, script, rest, htokens, hscript, hread⟩ := stops_of_topSequence .nil rfl hs
    obtain ⟨pending, hpending, rfl⟩ := declared_of_readTop_error hread
    refine ⟨used, script, rest, stop, pending, htokens, hscript, by rw [hread],
      Except.error.inj hstop, hpending, ?_⟩
    rw [List.reverse_append, script.reverse_declarations]
    cases pending <;> rfl
  · cases h

end

/-! ## Runs that fail -/

theorem Machine.events_after (m : Machine) (env : Environment) (drawn : Option Primitive) :
    (m.after env drawn).events = m.events := by
  cases drawn <;> rfl

/-- No plain statement records anything, nor does anything that it executes. -/
theorem upholds_settled_events (table : Bindings String Procedure) :
    Upholds (Settled table)
      (fun m m' => m'.env.procedures = m.env.procedures ∧ m'.events = m.events) where
  refl _ := ⟨rfl, rfl⟩
  trans h₁ h₂ := ⟨h₂.1.trans h₁.1, h₂.2.trans h₁.2⟩
  head h := (upholds_settled table).head h
  tail h ho hkeeps := (upholds_settled table).tail h ho hkeeps.1
  ifThen h := (upholds_settled table).ifThen h
  whileDo h := (upholds_settled table).whileDo h
  again h hkeeps := (upholds_settled table).again h hkeeps.1
  body h hc := (upholds_settled table).body h hc
  command h hp := ⟨(upholds_settled table).command h hp, Machine.events_after _ _ _⟩
  define h := by
    obtain ⟨d, ts, hs⟩ := h.plain _ List.mem_cons_self
    cases hs
  leave h := h

section

variable {steps depth : Nat} {s : Stmt} {ss : List Stmt} {m m₁ m' : Machine} {why : Halt}

/-- A statement of the top level that is no definition records nothing. -/
theorem Stmt.TopLevel.keeps_events (h : s.TopLevel) (hs : s.isDefinition = false)
    (hbodies : PlainBodies m.env.procedures) (steps depth : Nat) :
    (execute steps depth s m).machine.events = m.events :=
  ((upholds_settled_events _).outcome (c := ⟨steps, depth, .stmt s, m⟩) (h.settled hs hbodies)).2

/-- A statement of the top level that comes to its end has recorded the definition that it is, if it
is one. -/
theorem Stmt.TopLevel.events_of_done (h : s.TopLevel) (hbodies : PlainBodies m.env.procedures)
    (hdone : execute steps depth s m = .done m₁) :
    m₁.events.toList = m.events.toList ++ (Script.defined [s]).map .defined := by
  cases hs : s.isDefinition with
  | true =>
    obtain hout | ⟨name, p, rfl, hdefine⟩ := execute_definition hs steps depth m
    · rw [hout] at hdone
      cases hdone
    · rw [hdefine] at hdone
      cases hdone
      exact Array.toList_push
  | false =>
    have hkeeps : m₁.events = m.events := by
      simpa only [hdone, Outcome.machine] using h.keeps_events hs hbodies steps depth
    rw [hkeeps]
    cases s with
    | define name parameters body => cases hs
    | _ => exact (List.append_nil _).symm

/-- One that fails has not recorded any. -/
theorem Stmt.TopLevel.events_of_halted (h : s.TopLevel) (hbodies : PlainBodies m.env.procedures)
    (hhalted : execute steps depth s m = .halted why m₁) : m₁.events = m.events := by
  cases hs : s.isDefinition with
  | true =>
    obtain hout | ⟨name, p, -, hdefine⟩ := execute_definition hs steps depth m
    · rw [hout] at hhalted
      cases hhalted
      rfl
    · rw [hdefine] at hhalted
      cases hhalted
  | false => simpa only [hhalted, Outcome.machine] using h.keeps_events hs hbodies steps depth

namespace Moment

variable {start c : Moment} {script executed : Script}

/-- Statements that come to their end one after the other have all been executed. -/
theorem Behind.completed (h : Behind start executed ⟨steps, depth, .all ss, m⟩)
    (hdone : executeAll steps depth ss m = .done m') :
    ∃ left, Behind start (executed ++ ss) ⟨left, depth, .all [], m'⟩ := by
  induction ss generalizing executed steps m with
  | nil =>
    cases steps with
    | zero => cases hdone
    | succ steps =>
      cases hdone
      exact ⟨_, by simpa using h⟩
  | cons s ss ih =>
    cases steps with
    | zero => cases hdone
    | succ steps =>
      rw [executeAll] at hdone
      split at hdone
      · cases hdone
      · rename_i m₁ hs
        obtain ⟨left, hleft⟩ := ih (.next h hs) hdone
        exact ⟨left, by simpa using hleft⟩

/-- When statements fail that are executed one after the other, those before the one that fails have
been executed. -/
theorem Behind.failed (h : Behind start executed ⟨steps, depth, .all ss, m⟩)
    (hwhy : why ≠ .outOfSteps) (hhalted : executeAll steps depth ss m = .halted why m') :
    ∃ before s rest left m₁ own, ss = before ++ s :: rest ∧
      Behind start (executed ++ before) ⟨left + 1, depth, .all (s :: rest), m₁⟩ ∧
      execute left depth s m₁ = .halted own m' ∧ why = own.inStatement s := by
  induction ss generalizing executed steps m with
  | nil =>
    cases steps with
    | zero =>
      cases hhalted
      exact absurd rfl hwhy
    | succ steps => cases hhalted
  | cons s ss ih =>
    cases steps with
    | zero =>
      cases hhalted
      exact absurd rfl hwhy
    | succ steps =>
      rw [executeAll] at hhalted
      split at hhalted
      · rename_i own m₁ hs
        cases hhalted
        exact ⟨[], s, ss, steps, m, own, rfl, by simpa using h, hs, rfl⟩
      · rename_i m₁ hs
        obtain ⟨before, t, rest, left, m₂, own, rfl, hbehind, ht, rfl⟩ := ih (.next h hs) hhalted
        exact ⟨s :: before, t, rest, left, m₂, own, rfl, by simpa using hbehind, ht, rfl⟩

/-- A script that comes to its end has been executed. -/
theorem completed_of_done (htask : start.task = .block script) (h : start.outcome = .done m') :
    ∃ left depth, Behind start script ⟨left, depth, .all [], m'⟩ := by
  obtain ⟨steps, depth, task, m⟩ := start
  cases htask
  cases steps with
  | zero => cases h
  | succ steps =>
    cases depth with
    | zero => cases h
    | succ depth =>
      obtain ⟨left, hleft⟩ := Behind.enter.completed h
      exact ⟨left, depth, hleft⟩

/-- A script that fails by an error has been executed up to the statement that fails. -/
theorem failed_of_error {e : ExecError} (htask : start.task = .block script)
    (h : start.outcome = .halted (.error e) m') :
    ∃ executed s rest left depth m own, script = executed ++ s :: rest ∧
      Behind start executed ⟨left + 1, depth, .all (s :: rest), m⟩ ∧
      execute left depth s m = .halted own m' ∧ .error e = own.inStatement s := by
  obtain ⟨steps, depth, task, m⟩ := start
  cases htask
  cases steps with
  | zero => cases h
  | succ steps =>
    cases depth with
    | zero => cases h
    | succ depth =>
      have hall : executeAll steps depth script m = .halted (.error e) m' := h
      obtain ⟨before, s, rest, left, m₁, own, hsplit, hbehind, hs, hwhy⟩ :=
        Behind.enter.failed (by nofun) hall
      exact ⟨before, s, rest, left, depth, m₁, own, hsplit, hbehind, hs, hwhy⟩

section

variable {rest : List Stmt} (htask : start.task = .block script)
  (htable : start.machine.env.procedures = .empty) (hscript : ∀ s ∈ script, s.TopLevel)

include htask htable hscript

/-- The statement that comes next is one of the top level, and all procedures are plain. -/
theorem Behind.next_topLevel (h : Behind start executed ⟨steps, depth, .all (s :: rest), m⟩) :
    s.TopLevel ∧ PlainBodies m.env.procedures := by
  obtain ⟨_, heq, rfl, hprocedures⟩ := h.settled htask htable hscript
  cases heq
  exact ⟨hscript s (by simp), hprocedures ▸ .of_append hscript⟩

/-- What is on record behind some statements of a script are the definitions among them. -/
theorem Behind.events (h : Behind start executed c) :
    c.machine.events.toList = start.machine.events.toList ++ executed.defined.map .defined := by
  induction h with
  | enter => exact (List.append_nil _).symm
  | next hbehind ho ih =>
    obtain ⟨hs, hbodies⟩ := hbehind.next_topLevel htask htable hscript
    rw [hs.events_of_done hbodies ho, ih htask htable, Script.defined_append, List.map_append,
      List.append_assoc]

/-- The statement that fails behind them adds nothing. -/
theorem Behind.events_of_halted (h : Behind start executed ⟨steps, depth, .all (s :: rest), m⟩)
    {left : Nat} (hhalted : execute left depth s m = .halted why m') :
    m'.events.toList = start.machine.events.toList ++ executed.defined.map .defined := by
  obtain ⟨hs, hbodies⟩ := h.next_topLevel htask htable hscript
  rw [hs.events_of_halted hbodies hhalted]
  exact h.events htask htable hscript

end

end Moment

end

/-! ## Lines of the log -/

/-- Events that are there for debugging only, with the lines in which they are on record. -/
structure Debugs (events : List Event) (lines : List String) : Prop where
  level : ∀ e ∈ events, e.level = .debug
  lines : events.map Event.record = lines

namespace Debugs

theorem nil : Debugs [] [] := ⟨nofun, rfl⟩

theorem append {a b : List Event} {la lb : List String} (ha : Debugs a la) (hb : Debugs b lb) :
    Debugs (a ++ b) (la ++ lb) :=
  ⟨List.forall_mem_append.mpr ⟨ha.level, hb.level⟩, by rw [List.map_append, ha.lines, hb.lines]⟩

theorem map {α : Type} {event : α → Event} {line : α → String}
    (h : ∀ a, (event a).level = .debug ∧ (event a).record = line a) (as : List α) :
    Debugs (as.map event) (as.map line) := by
  refine ⟨fun e he => ?_, ?_⟩
  · obtain ⟨a, -, rfl⟩ := List.mem_map.mp he
    exact (h a).1
  · rw [List.map_map]
    exact List.map_congr_left fun a _ => (h a).2

theorem cons {e : Event} {line : String} {events : List Event} {lines : List String}
    (hlevel : e.level = .debug) (hline : e.record = line) (h : Debugs events lines) :
    Debugs (e :: events) (line :: lines) :=
  ⟨List.forall_mem_cons.mpr ⟨hlevel, h.level⟩, by rw [List.map_cons, hline, h.lines]⟩

end Debugs

/-- The line on the tokens of a text. -/
def tokensLine (tokens : Nat) : String :=
  "DEBUG Tokenized script into " ++ toString tokens ++ " tokens"

/-- The lines on procedures with their numbers of parameters. -/
def declaredLines (signatures : List (String × Nat)) : List String :=
  signatures.map fun entry =>
    "DEBUG Procedure " ++ entry.1 ++ " takes " ++ toString entry.2 ++ " parameters"

/-- The lines on a text that is a script: its tokens, each definition, and the numbers of statements
and of the procedures that are told apart by their names. -/
def readLines (tokens : Nat) (script : Script) : List String :=
  tokensLine tokens :: declaredLines script.signatures ++
    ["DEBUG Parsed " ++ toString script.length ++ " top-level nodes, " ++
      toString script.defined.toFinset.card ++ " procedures"]

/-- The lines on procedures that have been defined. -/
def definedLines (names : List String) : List String :=
  names.map fun name => "DEBUG Defined procedure " ++ name

theorem debugs_declared (signatures : List (String × Nat)) :
    Debugs (signatures.map fun entry => .declared entry.1 entry.2) (declaredLines signatures) :=
  .map (fun _ => ⟨rfl, by rfl⟩) signatures

theorem debugs_defined (names : List String) :
    Debugs (names.map .defined) (definedLines names) :=
  .map (fun _ => ⟨rfl, by rfl⟩) names

theorem debugs_tokenized (tokens : Nat) {events : List Event} {lines : List String}
    (h : Debugs events lines) : Debugs (.tokenized tokens :: events) (tokensLine tokens :: lines) :=
  .cons rfl (by rfl) h

/-- The parse of a script is on record in the lines on it. -/
theorem debugs_read (tokens : Nat) (script : Script) :
    Debugs (.tokenized tokens :: declarationEvents (Script.declarations [] script) ++
      [.parsed script.length
        (Script.declarations [] script).signatures.entries.length])
      (readLines tokens script) := by
  rw [script.length_entries_declarations, declarationEvents, script.reverse_declarations]
  exact (debugs_tokenized tokens (debugs_declared _)).append (.cons rfl (by rfl) .nil)

theorem debugs_drawn (drawn : Nat) :
    Debugs [.finished drawn, .produced drawn]
      ["DEBUG Run finished with " ++ toString drawn ++ " primitives",
        "DEBUG Script produced " ++ toString drawn ++ " primitives"] :=
  .cons rfl (by rfl) (.cons rfl (by rfl) .nil)

theorem debugs_halted (message : String) :
    Debugs [.halted message] ["DEBUG Run halted: " ++ message] :=
  .cons rfl (by rfl) .nil

/-! ## Texts -/

/-- What is on record for debugging of a text whose processing, with the turtle that is made for it,
has this ending. -/
inductive Trail (limits : Limits) (text : String) (turtle? : Option Turtle) :
    Ending → List String → Prop where
  | success {ls : List Lexeme} {script : Script} {drawn : List Primitive} {turtle : Turtle}
      {globals : Globals} : tokenize text = .ok ls →
      (parse limits.depth (tokensOf ls)).1 = .ok script →
      Trail limits text turtle? (.success drawn turtle globals)
        (readLines ls.length script ++ definedLines script.defined ++
          ["DEBUG Run finished with " ++ toString drawn.length ++ " primitives",
            "DEBUG Script produced " ++ toString drawn.length ++ " primitives"])
  | lexing {e : LexError} : tokenize text = .error e →
      Trail limits text turtle? (.failure (.lex e)) []
  /-- Some statements of the top level have been read, and the next one is at fault. -/
  | parsing {ls : List Lexeme} {used rest : List Token} {script : Script} {stop : Stop}
      {pending : Option (String × Nat)} {e : ParseError} : tokenize text = .ok ls →
      tokensOf ls = used ++ rest → Script.Derived [] used script →
      (Stmt.readTop limits.depth (Script.declarations [] script) rest).1 = .error stop →
      stop.locate ls.length = .error e →
      (∀ entry, entry ∈ pending ↔ (Script.declarations [] script).AcceptsHeading rest entry) →
      Trail limits text turtle? (.failure (.parse e))
        (tokensLine ls.length :: declaredLines (script.signatures ++ pending.toList))
  /-- Some statements of the script have been executed, and the next one fails. -/
  | running {ls : List Lexeme} {script executed rest : Script} {start : Turtle} {s : Stmt}
      {left depth : Nat} {m m' : Machine} {own : Halt} {e : ExecError} : tokenize text = .ok ls →
      (parse limits.depth (tokensOf ls)).1 = .ok script → script = executed ++ s :: rest →
      turtle? = some start →
      (Moment.ofRun limits (.fresh start) script).Behind executed
        ⟨left + 1, depth, .all (s :: rest), m⟩ →
      execute left depth s m = .halted own m' → own.inStatement s = .error e →
      Trail limits text turtle? (.failure (.exec e))
        (readLines ls.length script ++ definedLines executed.defined ++
          ["DEBUG Run halted: " ++ e.message])

/-- The event of a failure, which is recorded behind all others. -/
def Ending.failureEvents : Ending → List Event
  | .failure e => [.failed e.kind e.message]
  | _ => []

/-- The line on a failure. -/
def Ending.failureLines : Ending → List String
  | .failure e => ["INFO Script failed with " ++ e.kind ++ ": " ++ e.message]
  | _ => []

theorem Ending.records_failureEvents (ending : Ending) :
    records .debug ending.failureEvents = ending.failureLines ∧
      records .info ending.failureEvents = ending.failureLines := by
  cases ending <;> exact ⟨rfl, rfl⟩

/-- A report has a trail on record, behind the loading of the grammar and before the failure. -/
def Report.HasTrail (limits : Limits) (grammar : Grammar) (text : String)
    (turtle? : Option Turtle) (report : Report) : Prop :=
  ∃ before lines, report.events = grammar.events ++ before ++ report.ending.failureEvents ∧
    Debugs before lines ∧ Trail limits text turtle? report.ending lines

section

variable {limits : Limits} {grammar : Grammar} {text : String} {turtle? : Option Turtle}

/-- The run of a script for which there is an answer has a trail. -/
theorem hasTrail_of_script {ls : List Lexeme} {script : Script} {declared : Declarations}
    {start : Turtle} (hls : tokenize text = .ok ls)
    (hp : parse limits.depth (tokensOf ls) = (.ok script, declared))
    (hstart : turtle? = some start)
    (h : (processScript limits grammar text turtle?).ending.isAnswer = true) :
    (processScript limits grammar text turtle?).HasTrail limits grammar text turtle? := by
  have hscript : (parse limits.depth (tokensOf ls)).1 = .ok script := by rw [hp]
  obtain ⟨hderived, hn⟩ := derived_of_parse hscript
  have hdeclared : declared = Script.declarations [] script := by
    rw [parse_of_derived hderived hn] at hp
    exact (Prod.mk.inj hp).2.symm
  subst hdeclared hstart
  have hread := debugs_read ls.length script
  -- The run is that of an interpreter on a machine that has nothing on record.
  simp only [processScript, hls, hp, Interpreter.run_eq_ofOutcome] at h ⊢
  cases ho : (Moment.ofRun limits (.fresh start) script).outcome with
  | done m =>
    obtain ⟨left, depth, hbehind⟩ := Moment.completed_of_done rfl ho
    have hevents : m.events.toList = script.defined.map .defined :=
      hbehind.events rfl rfl hderived.topLevel
    refine ⟨_, _, ?_, (hread.append (debugs_defined _)).append (debugs_drawn m.primitives.size),
      .success hls hscript⟩
    simp [Interpreter.ofOutcome, Report.ofRun, Interpreter.primitives, Interpreter.env,
      Machine.log, hevents, readEvents, Ending.failureEvents]
  | halted why m =>
    cases why with
    | error e =>
      obtain ⟨executed, s, rest, left, depth, m₁, own, hsplit, hbehind, hs, hown⟩ :=
        Moment.failed_of_error rfl ho
      have hevents : m.events.toList = executed.defined.map .defined :=
        hbehind.events_of_halted rfl rfl hderived.topLevel hs
      refine ⟨_, _, ?_, (hread.append (debugs_defined _)).append (debugs_halted e.message),
        .running hls hscript hsplit rfl hbehind hs hown.symm⟩
      simp [Interpreter.ofOutcome, Report.ofRun, Report.failed, Machine.log, hevents,
        Halt.message, readEvents, Ending.failureEvents]
    | _ => simp [ho, Interpreter.ofOutcome, Report.ofRun, Ending.isAnswer] at h

/-- Whatever text there is an answer for, the report of it has a trail. -/
theorem hasTrail_of_isAnswer
    (h : (processScript limits grammar text turtle?).ending.isAnswer = true) :
    (processScript limits grammar text turtle?).HasTrail limits grammar text turtle? := by
  cases hls : tokenize text with
  | error e =>
    refine ⟨[], [], ?_, .nil, ?_⟩ <;> simp only [processScript, hls]
    · exact (congrArg (· ++ _) (List.append_nil _)).symm
    · exact .lexing hls
  | ok ls =>
    cases hp : parse limits.depth (tokensOf ls) with
    | mk result declared =>
      cases result with
      | ok script =>
        cases turtle? with
        | none =>
          simp only [processScript, hls, hp] at h
          cases h
        | some start => exact hasTrail_of_script hls hp rfl h
      | error f =>
        cases f with
        | error e =>
          obtain ⟨used, script, rest, stop, pending, htokens, hderived, hread, hstop, hpending,
            hdeclared⟩ := parse_stops hp
          have hlength : (tokensOf ls).length = ls.length := List.length_map _
          refine ⟨_, _, ?_, debugs_tokenized ls.length
            (debugs_declared (script.signatures ++ pending.toList)), ?_⟩ <;>
            simp only [processScript, hls, hp, readEvents, declarationEvents, hdeclared]
          · rfl
          · exact .parsing hls htokens hderived hread (hlength ▸ hstop) hpending
        | beyondEnd =>
          simp only [processScript, hls, hp] at h
          cases h
        | tooDeep =>
          simp only [processScript, hls, hp] at h
          cases h

theorem Grammar.debugs_events (grammar : Grammar) :
    Debugs grammar.events
      (if grammar.loaded then [] else ["DEBUG Loaded lexing grammar from " ++ grammar.path]) := by
  unfold Grammar.events
  split
  · exact .nil
  · exact .cons rfl (by rfl) .nil

/-- What is on record of a report that has a trail. -/
theorem Report.HasTrail.records_eq {report : Report}
    (h : report.HasTrail limits grammar text turtle?) :
    let loading :=
      if grammar.loaded then [] else ["DEBUG Loaded lexing grammar from " ++ grammar.path]
    ∃ lines, Trail limits text turtle? report.ending lines ∧
      records .debug report.events = loading ++ lines ++ report.ending.failureLines ∧
      records .info report.events = report.ending.failureLines := by
  intro loading
  obtain ⟨before, lines, hevents, hbefore, htrail⟩ := h
  have hdebugs := grammar.debugs_events.append hbefore
  obtain ⟨hdebug, hinfo⟩ := report.ending.records_failureEvents
  refine ⟨lines, htrail, ?_, ?_⟩
  · rw [hevents, records_append, hdebug, records_debug, hdebugs.lines]
  · rw [hevents, records_append, hinfo, records_info_of_debug hdebugs.level, List.nil_append]

end

/-- What the log tells of a text for which there is an answer. First there is the loading of the
grammar, unless that has happened before. Then there are records of how far the script has come: of
its lexing, its parsing and its run. These are all for debugging. Only a failure is of more than
that interest; it is the last record, with the kind and the message that are in the answer. -/
theorem runScript_logs {limits : Limits} {grammar : Grammar} {text : String} {width height : Int}
    (h : (runScript limits grammar text width height).ending.isAnswer = true) :
    let report := runScript limits grammar text width height
    let loading :=
      if grammar.loaded then [] else ["DEBUG Loaded lexing grammar from " ++ grammar.path]
    ∃ lines, Trail limits text (Turtle.centred? width height) report.ending lines ∧
      records .debug report.events = loading ++ lines ++ report.ending.failureLines ∧
      records .info report.events = report.ending.failureLines :=
  (hasTrail_of_isAnswer h).records_eq

/-- The heading of a procedure is on record although the body cannot be read. Here the grammar is
loaded for the first time. -/
theorem runScript_logs_in_body :
    let report := runScript ⟨9, 99⟩ ⟨"logo.dsl", false⟩ "TO P :a END" 500 500
    report.ending.isAnswer = true ∧
      (∃ lines, Trail ⟨9, 99⟩ "TO P :a END" (Turtle.centred? 500 500) report.ending lines ∧
        records .debug report.events = ["DEBUG Loaded lexing grammar from logo.dsl"] ++ lines ++
          report.ending.failureLines ∧
        records .info report.events = report.ending.failureLines) ∧
      records .debug report.events =
        ["DEBUG Loaded lexing grammar from logo.dsl", "DEBUG Tokenized script into 4 tokens",
          "DEBUG Procedure P takes 0 parameters",
          "INFO Script failed with ParseError: Expected a command (token 2: ':a')"] := by
  have hanswer :
      (runScript ⟨9, 99⟩ ⟨"logo.dsl", false⟩ "TO P :a END" 500 500).ending.isAnswer = true := by
    decide +kernel
  exact ⟨hanswer, runScript_logs hanswer, by decide +kernel⟩

end TurtleGraphics
