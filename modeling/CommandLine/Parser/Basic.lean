import CommandLine.Mode
import CommandLine.Usage

/-!
# Parsers

A `Parser` is an option table with the settings of a parse. It holds no state, so that one
parser may be used for any number of argument vectors.
-/

namespace CommandLine

/-- A table and the settings under which argument vectors are parsed against it. -/
structure Parser where
  table : Table
  /-- The ways to call the program, for the usage text. -/
  calls : List String := []
  mode : Mode := {}
  layout : Layout := {}
  /-- The directory against which relative file names are resolved. -/
  directory : Option String := none
deriving DecidableEq, Repr

/-- The usage text of a parser. -/
def Parser.usage (p : Parser) : String := p.table.usage p.calls p.layout

end CommandLine
