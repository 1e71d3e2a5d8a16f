import CommandLine.Usage.Row

/-!
# The usage text

The ways to call the program come first, then the options under their headings.
-/

namespace CommandLine

/-- One way to call the program, after `lead`. Its lines but the first are indented. -/
def callText (lead : String) (call : String) : String :=
  match Text.lines call.toList with
  | [] => lead ++ "\n"
  | first :: rest =>
    lead ++ String.ofList first ++ "\n" ++
      String.join (rest.map fun line => "       " ++ String.ofList line ++ "\n")

/-- The ways to call the program. -/
def callTexts : List String → String
  | [] => ""
  | first :: rest =>
    callText "usage: " first ++ String.join (rest.map (callText "   or: "))

namespace Table

/-- What the usage text says of an entry: a heading after a blank line, or the rows of an
option. A heading without words is only the blank line. -/
def entryText (t : Table) (l : Layout) (e : Entry) : String :=
  if e.isHeading then
    if e.help == "" then "\n" else "\n" ++ e.help ++ "\n"
  else String.join ((t.rows e).map (Row.render l))

/-- The usage text. A blank line stands before options that have no heading, and at the end. -/
def usage (t : Table) (calls : List String) (l : Layout) : String :=
  let lead := match t with
    | [] => ""
    | e :: _ => if e.isHeading then "" else "\n"
  callTexts calls ++ lead ++ String.join (t.map (t.entryText l)) ++ "\n"

end Table

end CommandLine
