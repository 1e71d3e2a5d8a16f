import CommandLine.Parser.Run
import CommandLine.Usage.Written

/-!
# Parsing an argument vector

`Parser.parse` checks the table, runs over the arguments, writes what is to be written, and
gives back the argument vector and the slots as they are afterwards.
-/

namespace CommandLine

/-- What a parse amounts to. -/
inductive Outcome where
  /-- So many arguments remain. -/
  | ok (count : Nat)
  /-- The usage text was asked for. -/
  | help
  | fatal (fault : Fault)
deriving DecidableEq, Repr

/-- The exit status of a program that ends with this outcome. -/
def Outcome.exitStatus : Outcome → UInt32
  | ok _ => 0
  | help => 0
  | fatal _ => 129

/-- Everything that a parse leaves behind. -/
structure Parsed where
  outcome : Outcome
  argv : List String
  slots : Slots
  out : Sink
  err : Sink
  events : List Event
deriving DecidableEq, Repr

/-- What is written on the way to an outcome: a writer without room for it makes a fault of any
outcome. -/
def Writing.settle (w : Writing) (s : Sink) (outcome : Outcome) : Outcome × Sink :=
  match w s with
  | .ok _ s' => (outcome, s')
  | .error reason s' => (.fatal (.io reason), s')

namespace Parser

/-- Writes the usage text of a parser. -/
def writeUsage (p : Parser) : Writing := p.table.writeUsage p.calls p.layout

/-- Parses `argv`. A table with a defect is reported, and nothing else is done. -/
def parse (p : Parser) (argv : List String) (slots : Slots) (out err : Sink) : Parsed :=
  match p.table.defect? with
  | some defect =>
    let fault := Fault.badTable defect.message
    let (outcome, err) := fault.write.settle err (.fatal fault)
    { outcome, argv, slots, out, err, events := [] }
  | none =>
    let run := p.run (Cursor.start p.mode argv)
    let slots := slots.after run.events
    match run.ending with
    | .complete =>
      { outcome := .ok run.argv.length
        argv := run.argv, slots, out, err, events := run.events }
    | .help =>
      let (outcome, out) := p.writeUsage.settle out .help
      { outcome, argv := run.argv, slots, out, err, events := run.events }
    | .fault fault =>
      let (outcome, err) := Writing.settle (do fault.write; p.writeUsage) err (.fatal fault)
      { outcome, argv := run.argv, slots, out, err, events := run.events }

/-- Parses vectors one after the other with writers of their own. Each parse starts from the
slots that the one before it left. -/
def parseEach (p : Parser) (slots : Slots) : List (List String) → List Parsed
  | [] => []
  | argv :: more =>
    let parsed := p.parse argv slots {} {}
    parsed :: p.parseEach parsed.slots more

end Parser

end CommandLine
