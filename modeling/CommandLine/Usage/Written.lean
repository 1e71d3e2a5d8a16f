import CommandLine.Usage
import CommandLine.Writing

/-!
# Writing the usage text

The usage text goes to its writer piece by piece: every name, placeholder, padding and piece of
help text is a write of its own. A writer may be full after any of them, and then nothing of the
rest is written (`Table.writeUsage`).
-/

namespace CommandLine

open Writing

/-- Writes one way to call the program, after `lead`. Its lines but the first are indented. -/
def writeCall (lead call : String) : Writing :=
  match Text.lines call.toList with
  | [] => do
    put lead
    put "\n"
  | first :: rest => do
    put lead
    put (String.ofList first)
    put "\n"
    rest.forM fun line => do
      put "       "
      put (String.ofList line)
      put "\n"

/-- Writes the ways to call the program. -/
def writeCalls : List String → Writing
  | [] => pure ()
  | first :: rest => do
    writeCall "usage: " first
    rest.forM (writeCall "   or: ")

/-- Writes the pieces of a help text, the first on a line that is filled up to `pos`. -/
def writePieces (l : Layout) (pos : Nat) : List (List Char) → Writing
  | [] => pure ()
  | first :: rest => do
    put (String.ofList (l.padding pos))
    put (String.ofList first)
    rest.forM fun piece => do
      put "\n"
      put (String.ofList (l.padding 0))
      put (String.ofList piece)

/-- Writes the row of an option: its names, its help text, and the end of the line. -/
def Row.write (l : Layout) (r : Row) : Writing := do
  put r.left
  writePieces l r.left.length (helpPieces l r.help)
  put "\n"

/-- Writes what the usage text says of an entry, where the `declared` names have rows of their
own. -/
def Entry.write (l : Layout) (declared : List Char → Bool) (e : Entry) : Writing :=
  if e.isHeading then do
    put "\n"
    if e.help == "" then pure ()
    else do
      put e.help
      put "\n"
  else (e.rows declared).forM (Row.write l)

namespace Table

/-- Writes the blank line before options that have no heading. -/
def writeLead : Table → Writing
  | [] => pure ()
  | e :: _ => if e.isHeading then pure () else put "\n"

/-- Writes the usage text. -/
def writeUsage (t : Table) (calls : List String) (l : Layout) : Writing := do
  writeCalls calls
  t.writeLead
  t.forM (Entry.write l t.hasLong)
  put "\n"

end Table

end CommandLine
