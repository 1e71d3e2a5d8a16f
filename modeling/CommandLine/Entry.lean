/-!
# Entries of an option table

An `Entry` declares one option: its names, what its slot holds, what it accepts and how the
usage text shows it. A heading is an entry too, so that the usage text keeps the order in
which the table was written. Entries hold no slot contents: those are `Value`s, kept apart.
-/

namespace CommandLine

/-- What an entry declares, and so what its slot holds. -/
inductive Kind where
  /-- A heading of the usage text, which no argument resolves to. -/
  | heading
  /-- A switch with an integer slot: it receives `onValue`, or zero when negated. -/
  | switch (onValue : Int32)
  /-- A switch with a Boolean slot. -/
  | flag
  /-- An option with a value that is stored as it is given. -/
  | text
  /-- An option whose value is a file name, resolved against a directory when relative. -/
  | path
deriving DecidableEq, Repr

/-- A declared option or heading. -/
structure Entry where
  kind : Kind
  /-- The long name, without dashes. An empty one declares an option with a short name only. -/
  long : String := ""
  short : Option Char := none
  /-- The help text, or the words of a heading. -/
  help : String := ""
  /-- What the usage text shows for the value. -/
  placeholder : Option String := none
  /-- The placeholder is shown as it is, without angle brackets. -/
  rawPlaceholder : Bool := false
  /-- The `no-` form is accepted. -/
  negatable : Bool := false
  /-- The long form refuses `=value`. -/
  bare : Bool := false
  /-- A value is taken only when it is attached to the option. -/
  optional : Bool := false
  /-- The value of an `optional` entry that is given without one. -/
  fallback : Option String := none
deriving DecidableEq, Repr

/-- How an option was given: by its long name, by its short name, or negated. -/
inductive Form where
  | long
  | short
  | negated
deriving DecidableEq, Repr

/-- What follows `no-` at the front of a name. -/
def afterNo? : List Char → Option (List Char)
  | 'n' :: 'o' :: '-' :: rest => some rest
  | _ => none

theorem afterNo?_eq_some_iff {name rest : List Char} :
    afterNo? name = some rest ↔ name = 'n' :: 'o' :: '-' :: rest := by
  constructor
  · intro h
    unfold afterNo? at h
    split at h
    · rw [Option.some.inj h]
    · simp at h
  · rintro rfl
    rfl

namespace Entry

/-- Whether the entry is a heading. -/
def isHeading (e : Entry) : Bool := e.kind == .heading

/-- Whether the option stores a value given with it. -/
def takesValue (e : Entry) : Bool := e.kind == .text || e.kind == .path

/-- Whether the long form refuses `=value`: a switch always does. -/
def refusesAttached (e : Entry) : Bool := !e.takesValue || e.bare

/-- The name under which the option, or its negation, is known: `x` has the negation `no-x`,
and `no-x` has the negation `x`. -/
def invokedName (e : Entry) (negated : Bool) : String :=
  if negated then
    match afterNo? e.long.toList with
    | some positive => String.ofList positive
    | none => "no-" ++ e.long
  else e.long

/-- The option as it was given, in the words of a diagnostic. -/
def describe (e : Entry) (form : Form) : String :=
  match form, e.short with
  | .short, some c => "switch '" ++ c.toString ++ "'"
  | .negated, _ => "option '" ++ e.invokedName true ++ "'"
  | _, _ => "option '" ++ e.long ++ "'"

end Entry

end CommandLine
