import CommandLine.Table
import CommandLine.Usage.Layout

/-!
# The lines of a usage text that show an option

A `Row` is what the usage text says of one option: the names it shows, the placeholder of its
value, and its help text. A negatable option that is declared as `no-x` gets a second row for
its opposite `x`, unless that name is declared on its own (`Table.rows`).
-/

namespace CommandLine

/-- How a row shows a long name. -/
inductive LongForm where
  /-- As `--name`. -/
  | plain (name : String)
  /-- As `--[no-]name`, which stands for the name and its negation. -/
  | negatable (name : String)
deriving DecidableEq, Repr

/-- A long name as the usage text writes it. -/
def LongForm.text : LongForm → String
  | plain name => "--" ++ name
  | negatable name => "--[no-]" ++ name

/-- What the usage text says of one option. -/
structure Row where
  short : Option Char
  long : Option LongForm
  /-- The placeholder with all that surrounds it. -/
  argument : String
  help : String
deriving DecidableEq, Repr

namespace Row

/-- The names and the placeholder, indented. -/
def left (r : Row) : String :=
  let names := (r.short.map fun c => "-" ++ c.toString).toList ++ (r.long.map (·.text)).toList
  "    " ++ ", ".intercalate names ++ r.argument

/-- The row as text, with the help text in its column. -/
def render (l : Layout) (r : Row) : String :=
  r.left ++ helpColumn l r.help r.left.length ++ "\n"

end Row

namespace Entry

/-- The long name of an option as its row shows it. A name that is a negation already is shown
without `[no-]`. -/
def longForm? (e : Entry) : Option LongForm :=
  if e.long == "" then none
  else if e.negatable && (afterNo? e.long.toList).isNone then some (.negatable e.long)
  else some (.plain e.long)

/-- The name of the opposite of a negatable option declared as `no-x`. -/
def opposite? (e : Entry) : Option (List Char) :=
  if e.negatable then afterNo? e.long.toList else none

/-- Whether a placeholder has brackets of its own. -/
def isBracketed (placeholder : String) : Bool :=
  placeholder.toList.any fun c => ['(', ')', '<', '>', '[', ']', '|'].contains c

/-- The placeholder in angle brackets, unless it is to be shown as it is. -/
def bracketedPlaceholder (e : Entry) : String :=
  match e.placeholder with
  | none => "..."
  | some p => if e.rawPlaceholder || isBracketed p then p else "<" ++ p ++ ">"

/-- The placeholder of the value. A value that may be left out stands in square brackets, with
the equals sign that attaches it to a long name. -/
def argument (e : Entry) : String :=
  if e.rawPlaceholder || !e.refusesAttached then
    if e.optional then
      (if e.long == "" then "[" else "[=") ++ e.bracketedPlaceholder ++ "]"
    else " " ++ e.bracketedPlaceholder
  else ""

/-- The row of an option under its own names. -/
def row (e : Entry) : Row := ⟨e.short, e.longForm?, e.argument, e.help⟩

end Entry

/-- The row of the opposite of `no-name`. -/
def oppositeRow (name : List Char) : Row :=
  ⟨none, some (.plain (String.ofList name)), "", "opposite of --no-" ++ String.ofList name⟩

/-- The rows of an option: its own, and that of its opposite unless that name is `declared`. -/
def Entry.rows (e : Entry) (declared : List Char → Bool) : List Row :=
  match e.opposite? with
  | some name => if declared name then [e.row] else [e.row, oppositeRow name]
  | none => [e.row]

/-- The rows of an option of the table. -/
def Table.rows (t : Table) (e : Entry) : List Row := e.rows t.hasLong

end CommandLine
