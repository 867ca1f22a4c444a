/-!
# TurtleGraphics.Log

What is recorded about the processing of a script.

* `Event`   : something worth a record.
* `Level`   : how important a record is.
* `records` : the records at or above a level.
-/

namespace TurtleGraphics

/-- How important a record is. -/
inductive Level where
  | debug
  | info
  | warning
deriving Repr, DecidableEq

namespace Level

/-- The levels in order. -/
def rank : Level → Nat
  | .debug => 0
  | .info => 1
  | .warning => 2

/-- The name of a level. -/
def text : Level → String
  | .debug => "DEBUG"
  | .info => "INFO"
  | .warning => "WARNING"

end Level

/-- Something worth a record. -/
inductive Event where
  | loaded (path : String)
  | tokenized (tokens : Nat)
  | declared (procedure : String) (parameters : Nat)
  | parsed (statements procedures : Nat)
  | defined (procedure : String)
  | finished (primitives : Nat)
  | halted (message : String)
  | produced (primitives : Nat)
  | failed (kind message : String)
deriving Repr, DecidableEq

namespace Event

/-- How important an event is. -/
def level : Event → Level
  | .failed _ _ => .info
  | _ => .debug

/-- An event in words. -/
def message : Event → String
  | .loaded path => "Loaded lexing grammar from " ++ path
  | .tokenized n => "Tokenized script into " ++ toString n ++ " tokens"
  | .declared name n => "Procedure " ++ name ++ " takes " ++ toString n ++ " parameters"
  | .parsed n k =>
    "Parsed " ++ toString n ++ " top-level nodes, " ++ toString k ++ " procedures"
  | .defined name => "Defined procedure " ++ name
  | .finished n => "Run finished with " ++ toString n ++ " primitives"
  | .halted message => "Run halted: " ++ message
  | .produced n => "Script produced " ++ toString n ++ " primitives"
  | .failed kind message => "Script failed with " ++ kind ++ ": " ++ message

/-- The record of an event, its level first. -/
def record (e : Event) : String :=
  e.level.text ++ " " ++ e.message

end Event

/-- The records of events at or above a level, in order. -/
def records (threshold : Level) (events : List Event) : List String :=
  (events.filter (fun e => threshold.rank ≤ e.level.rank)).map Event.record

theorem records_debug (events : List Event) :
    records .debug events = events.map Event.record := by
  have hall : events.filter (fun e => Level.debug.rank ≤ e.level.rank) = events :=
    List.filter_eq_self.mpr fun e _ => decide_eq_true (Nat.zero_le e.level.rank)
  rw [records, hall]

theorem records_append (threshold : Level) (a b : List Event) :
    records threshold (a ++ b) = records threshold a ++ records threshold b := by
  simp only [records, List.filter_append, List.map_append]

/-- Events for debugging have no records above that level. -/
theorem records_info_of_debug {events : List Event} (h : ∀ e ∈ events, e.level = .debug) :
    records .info events = [] := by
  have hnone : events.filter (fun e => Level.info.rank ≤ e.level.rank) = [] := by
    refine List.filter_eq_nil_iff.mpr fun e he => ?_
    rw [h e he]
    decide
  rw [records, hnone, List.map_nil]

end TurtleGraphics
