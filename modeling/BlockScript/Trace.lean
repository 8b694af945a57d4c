/-!
# Output and tracing

A run produces events in order: what the program prints, and notes for whoever traces it. Each
note has a level, and a transcript keeps the notes whose level is positive and does not exceed its
verbosity; what the program prints is always kept.

## Main definitions

* `Event` — a print or a note, each one line of output
* `Transcript` — a verbosity and the events kept so far
-/

namespace BlockScript

/-- One line of output. -/
inductive Event where
  /-- A line printed by the program. -/
  | printed (text : String)
  /-- A note about the run, of interest from a verbosity on. -/
  | note (level : Int) (text : String)
  deriving DecidableEq, Repr, Inhabited

namespace Event

/-- The text of an event, with the end of its line. -/
def line : Event → String
  | printed text => text ++ "\n"
  | note _ text => text ++ "\n"

/-- Whether an event was printed by the program. -/
def isPrinted : Event → Bool
  | printed _ => true
  | note _ _ => false

end Event

/-- The text of several events, one line each. -/
def Event.lines (events : List Event) : String :=
  String.join (events.map Event.line)

/-- The events of a run so far, the latest first, and the verbosity they are kept for. -/
structure Transcript where
  /-- The highest level of a note that is kept. -/
  verbosity : Int
  /-- The events kept, the latest first. -/
  latestFirst : List Event := []
  deriving Repr, Inhabited

namespace Transcript

/-- The events in order. -/
def events (t : Transcript) : List Event :=
  t.latestFirst.reverse

/-- Whether notes of a level are kept. -/
def keeps (t : Transcript) (level : Int) : Bool :=
  0 < level && level ≤ t.verbosity

/-- The transcript after the program printed a line. -/
def print (t : Transcript) (text : String) : Transcript :=
  { t with latestFirst := .printed text :: t.latestFirst }

/-- The transcript after a note of the given level; the text is made only if it is kept. -/
def note (t : Transcript) (level : Int) (text : Unit → String) : Transcript :=
  if t.keeps level then { t with latestFirst := .note level (text ()) :: t.latestFirst } else t

theorem events_print (t : Transcript) (text : String) :
    (t.print text).events = t.events ++ [.printed text] := by
  simp [events, print]

theorem events_note (t : Transcript) (level : Int) (text : Unit → String) :
    (t.note level text).events =
      t.events ++ if t.keeps level then [.note level (text ())] else [] := by
  unfold note
  split <;> simp [events]

/-- The transcript after several notes. -/
def notes (t : Transcript) (taken : List (Int × String)) : Transcript :=
  taken.foldl (fun t n => t.note n.1 fun _ => n.2) t

end Transcript

end BlockScript
