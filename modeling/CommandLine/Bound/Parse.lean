import CommandLine.Bound.Step
import CommandLine.Parser

/-!
# Parsing in place

`BoundParser.parse` parses as `Parser.parse` does, and gives the parser back with its slots as they
have been overwritten. The parser may then be used again (`BoundParser.parseCalls`).
-/

namespace CommandLine

namespace Work

/-- Handles the arguments from the cursor on, until none is left or one of them ends the parse. -/
def run (w : Work) : Exit × Work :=
  match _ : w.cursor.rest with
  | [] => (.complete, w)
  | token :: _ =>
    match _ : step token w with
    | .ok _ w' => run { w' with cursor := w'.cursor.advance }
    | .error exit w' => (exit, w')
termination_by w.cursor.rest.length
decreasing_by
  rename_i _ hrest _ hstep
  have hne : w.cursor.rest ≠ [] := by simp [hrest]
  have hon := Parser.onward_of_step hne (snd_of_mirrors_ok (hstep ▸ mirrors_step token w))
  exact Nat.lt_of_lt_of_le (Cursor.length_rest_advance_lt hon.1) hon.2

end Work

/-- Everything that a parse leaves behind, the parser with its slots included. -/
structure BoundParsed where
  outcome : Outcome
  parser : BoundParser
  argv : List String
  out : Sink
  err : Sink
  events : List Event
deriving DecidableEq, Repr

/-- Ends a parse for the reason that is given. One that does not go well puts the argument vector
back as it was. -/
def Work.finish (w : Work) (out : Sink) : Exit → BoundParsed
  | .complete =>
    let residual := w.cursor.residual
    { outcome := .ok residual.length
      parser := w.parser, argv := residual, out, err := w.err
      events := w.events ++ [.finished residual.length] }
  | .help =>
    let (outcome, out) := w.parser.writeUsage.settle out .help
    { outcome, parser := w.parser, argv := w.cursor.tokens, out, err := w.err, events := w.events }
  | .fault f =>
    let (outcome, err) := w.parser.writeUsage.settle w.err (.fatal f)
    { outcome, parser := w.parser, argv := w.cursor.tokens, out, err, events := w.events }
  | .unreported reason =>
    { outcome := .fatal (.io reason)
      parser := w.parser, argv := w.cursor.tokens, out, err := w.err, events := w.events }

/-- One parse of a sequence: a vector, and the writers that it has. -/
structure Call where
  argv : List String
  out : Sink := {}
  err : Sink := {}
deriving DecidableEq, Repr

namespace BoundParser

/-- Parses `argv`. A table with a defect is reported, and nothing else is done. -/
def parse (p : BoundParser) (argv : List String) (out err : Sink) : BoundParsed :=
  match p.options.check with
  | .error defect =>
    let fault := Fault.badTable defect.message
    let (outcome, err) := fault.write.settle err (.fatal fault)
    { outcome, parser := p, argv, out, err, events := [] }
  | .ok _ =>
    let (exit, w) := Work.run { parser := p, cursor := Cursor.start p.mode argv, err }
    w.finish out exit

/-- Parses all calls one after the other with the same parser, whose slots each parse leaves to the
next. -/
def parseCalls (p : BoundParser) : List Call → List BoundParsed
  | [] => []
  | c :: more =>
    let parsed := p.parse c.argv c.out c.err
    parsed :: parsed.parser.parseCalls more

/-- The parser as the last parse of a sequence leaves it. -/
def afterCalls (p : BoundParser) : List Call → BoundParser
  | [] => p
  | c :: more => (p.parse c.argv c.out c.err).parser.afterCalls more

end BoundParser

end CommandLine
