import CommandLine.Text.Lines
import CommandLine.Text.Wrap

/-!
# The help column

Help texts stand in a column of their own, to the right of the option names. A `Layout` says
where that column starts and how wide the page is, and `helpColumn` sets a text into it.
-/

namespace CommandLine

/-- The measures of a usage text, in characters. -/
structure Layout where
  /-- Where the help column starts. -/
  column : Nat := 26
  /-- How wide the page is. -/
  width : Nat := 79
deriving DecidableEq, Repr

namespace Layout

/-- The least width of a help column. -/
def minHelpWidth : Nat := 20

/-- How wide the help column is: what the page leaves for it, and never less than
`minHelpWidth`. -/
def helpWidth (l : Layout) : Nat := max (l.width - l.column) minHelpWidth

/-- The space up to the help column on a line that is filled up to `pos`. A line that is filled
up to the column or beyond is ended first. -/
def padding (l : Layout) (pos : Nat) : List Char :=
  if pos < l.column then List.replicate (l.column - pos) ' '
  else '\n' :: List.replicate l.column ' '

end Layout

/-- The pieces of a help text, one for each line of the help column. -/
def helpPieces (l : Layout) (help : String) : List (List Char) :=
  (Text.lines help.toList).flatMap (Text.wrap l.helpWidth)

/-- Pieces set into the help column, the first on a line that is filled up to `pos`. -/
def setPieces (l : Layout) (pos : Nat) : List (List Char) → List Char
  | [] => []
  | first :: rest =>
    l.padding pos ++ first ++ rest.flatMap fun piece => '\n' :: l.padding 0 ++ piece

/-- A help text set into the help column, on a line that is filled up to `pos`. The last line is
left open. -/
def helpColumn (l : Layout) (help : String) (pos : Nat) : String :=
  String.ofList (setPieces l pos (helpPieces l help))

@[simp] theorem helpColumn_empty (l : Layout) (pos : Nat) : helpColumn l "" pos = "" := by
  simp [helpColumn, helpPieces, setPieces]

end CommandLine
