import CommandLine.Parser.Step

/-!
# Handling all arguments

`Parser.run` handles one argument after the other until none is left, the parse is over, or
an argument ends it. Each step leaves fewer arguments, so that a run ends.
-/

namespace CommandLine

/-- How a run ends. -/
inductive Ending where
  | complete
  | help
  | fault (f : Fault)
deriving DecidableEq, Repr

/-- What a run has done, the argument vector it leaves, and how it ended. -/
structure Run where
  events : List Event
  argv : List String
  ending : Ending
deriving DecidableEq, Repr

/-- A run after some earlier events. -/
def Run.after (r : Run) (earlier : List Event) : Run := { r with events := earlier ++ r.events }

/-- The end of a run that went well: the arguments that remain are the new vector. -/
def Cursor.finish (c : Cursor) : Run :=
  ⟨[.finished c.residual.length], c.residual, .complete⟩

namespace Parser

/-- Handles the arguments from the cursor on. A run that does not go well leaves the argument
vector as it was. -/
def run (p : Parser) (c : Cursor) : Run :=
  match _ : c.rest with
  | [] => c.finish
  | token :: _ =>
    match _ : p.step c token with
    | (events, .next c') => (p.run c'.advance).after events
    | (events, .complete c') => c'.finish.after events
    | (events, .help) => ⟨events, c.tokens, .help⟩
    | (events, .fail fault) => ⟨events, c.tokens, .fault fault⟩
termination_by c.rest.length
decreasing_by
  rename_i _ hrest hstep
  have hne : c.rest ≠ [] := by simp [hrest]
  have hon := onward_of_step hne (congrArg Prod.snd hstep)
  exact Nat.lt_of_lt_of_le (Cursor.length_rest_advance_lt hon.1) hon.2

/-- With no argument left the run is over. -/
theorem run_of_rest_nil {p : Parser} {c : Cursor} (h : c.rest = []) : p.run c = c.finish := by
  rw [run]
  split
  · rfl
  · simp_all

/-- A run is its first step and what follows from it. -/
theorem run_of_rest_cons {p : Parser} {c : Cursor} {token : String} {more : List String}
    (h : c.rest = token :: more) :
    p.run c = match (p.step c token).2 with
      | .next c' => (p.run c'.advance).after (p.step c token).1
      | .complete c' => c'.finish.after (p.step c token).1
      | .help => ⟨(p.step c token).1, c.tokens, .help⟩
      | .fail fault => ⟨(p.step c token).1, c.tokens, .fault fault⟩ := by
  rw [run]
  split
  · simp_all
  · rename_i token' more' hrest
    obtain ⟨rfl, rfl⟩ := List.cons.inj (h.symm.trans hrest)
    split <;> rename_i hstep <;> simp [hstep]

end Parser

end CommandLine
