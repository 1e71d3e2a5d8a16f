import CommandLine.Assignment
import CommandLine.Lookup
import CommandLine.Text.Quoted

/-!
# What a parse does, event by event

A parse is a list of `Event`s. Read one way they are its log (`Event.message`), read the other
way they are its effect on the slots (`Slots.after`).
-/

namespace CommandLine

/-- One decision of a parse. -/
inductive Event where
  | matchedExactly (name : String)
  | matchedNegation (name : String)
  | abbreviated (text name : String)
  | foundAmbiguous (text : String) (names : List String)
  | assigned (assignment : Assignment)
  | stopped (argument : String)
  | terminated
  /-- The parse ended well, with so many arguments left. -/
  | finished (residual : Nat)
deriving DecidableEq, Repr

namespace Event

/-- The log line of an event. -/
def message : Event → String
  | matchedExactly name => "--" ++ name ++ " matched exactly"
  | matchedNegation name => "--" ++ name ++ " matched exactly as negation"
  | abbreviated text name => "--" ++ text ++ " abbreviates --" ++ name
  | foundAmbiguous text names => "--" ++ text ++ " is ambiguous between " ++ Text.quoteList names
  | assigned a => a.entry.describe a.form ++ " = " ++ Text.quoteOption a.value
  | stopped argument => "stopping at non-option '" ++ argument ++ "'"
  | terminated => "terminator"
  | finished residual => toString residual ++ " residual argument(s)"

/-- The assignment of an event that is one. -/
def assignment? : Event → Option Assignment
  | assigned a => some a
  | _ => none

end Event

/-- The events of looking up `text`. A text that only reads as a refused negation has none. -/
def Lookup.events (text : String) : Lookup → List Event
  | .unknown => []
  | .ambiguous hits => [.foundAmbiguous text (hits.map Hit.name)]
  | .found hit =>
    match hit.reading with
    | .exact _ => [.matchedExactly hit.entry.long]
    | .exactNegation _ => [.matchedNegation hit.entry.long]
    | .refusedNegation => []
    | .abbreviation _ => [.abbreviated text hit.name]

/-- Looking a text up assigns nothing. -/
theorem Lookup.assignments_events (found : Lookup) (text : String) :
    (found.events text).filterMap Event.assignment? = [] := by
  rcases found with _ | ⟨hit⟩ | hits
  · rfl
  · unfold Lookup.events
    cases hread : hit.reading <;> simp [hread, Event.assignment?]
  · rfl

/-- The slots after the assignments among the events, in their order. -/
def Slots.after (slots : Slots) (events : List Event) : Slots :=
  (events.filterMap Event.assignment?).foldl Assignment.apply slots

theorem Slots.length_foldl_apply (assignments : List Assignment) (slots : Slots) :
    (assignments.foldl Assignment.apply slots).length = slots.length := by
  induction assignments generalizing slots with
  | nil => rfl
  | cons a more ih => simp [ih, Assignment.apply]

/-- The slots keep their number. -/
theorem Slots.length_after (slots : Slots) (events : List Event) :
    (slots.after events).length = slots.length := length_foldl_apply _ slots

/-- Two runs of events act one after the other. -/
theorem Slots.after_append (slots : Slots) (first second : List Event) :
    slots.after (first ++ second) = (slots.after first).after second := by
  simp [Slots.after, List.filterMap_append, List.foldl_append]

end CommandLine
