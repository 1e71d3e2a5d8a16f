import CommandLine.Parser

/-!
# Sessions

A program with subcommands parses one argument vector in turns: the general options first, then
what remains against the table of the subcommand. A `Session` carries the vector from turn to
turn, and the slots of each table.
-/

namespace CommandLine

/-- The argument vector between two turns, and the slots of every table. -/
structure Session where
  argv : List String := []
  slots : List Slots
deriving DecidableEq, Repr

/-- One parse of a session. -/
structure Turn where
  parser : Parser
  /-- Which slots belong to the parser's table. -/
  index : Nat := 0
  /-- A new argument vector in the place of the one carried over. -/
  argv : Option (List String) := none
  /-- How many arguments are dropped from the front of the vector before the parse. -/
  drop : Nat := 0
  out : Sink := {}
  err : Sink := {}
deriving DecidableEq, Repr

namespace Session

/-- Takes one turn. Whatever its outcome, the session goes on from the vector and the slots that
the parse leaves. -/
def take (s : Session) (t : Turn) : Parsed × Session :=
  let argv := (t.argv.getD s.argv).drop t.drop
  let parsed := t.parser.parse argv (s.slots.getD t.index []) t.out t.err
  (parsed, ⟨parsed.argv, s.slots.set t.index parsed.slots⟩)

/-- Takes all turns in order. -/
def run (s : Session) : List Turn → List Parsed
  | [] => []
  | t :: more => (s.take t).1 :: (s.take t).2.run more

end Session

end CommandLine
