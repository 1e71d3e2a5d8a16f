import CommandLine.Text.CharRange
import CommandLine.Text.Blank
import CommandLine.Text.Visible
import CommandLine.Text.Quoted
import CommandLine.Text.Lines
import CommandLine.Text.Wrap
import CommandLine.Entry
import CommandLine.Table
import CommandLine.Fault
import CommandLine.Mode
import CommandLine.Lookup
import CommandLine.Cursor
import CommandLine.Assignment
import CommandLine.Event
import CommandLine.Usage.Layout
import CommandLine.Usage.Row
import CommandLine.Usage
import CommandLine.Sink
import CommandLine.Parser.Basic
import CommandLine.Parser.Step
import CommandLine.Parser.Run
import CommandLine.Parser
import CommandLine.Session
import CommandLine.Credential
import CommandLine.Main
import CommandLine.Proofs.Lookup.Reading
import CommandLine.Proofs.Lookup.ExactName
import CommandLine.Proofs.Lookup.Spelling
import CommandLine.Proofs.Parser.Course
import CommandLine.Proofs.Parser.Concatenation
import CommandLine.Proofs.Parser.Division
import CommandLine.Proofs.Usage.Writing
import CommandLine.Proofs.Lookup.ShortName
import CommandLine.Proofs.Parser.Exchange
import CommandLine.Proofs.Parser.GivenValue
import CommandLine.Proofs.Parser.Cluster
import CommandLine.Proofs.Parser.Interruption
import CommandLine.Proofs.Parser.Streams
import CommandLine.Proofs.Lookup.Reordering
import CommandLine.Proofs.Parser.Simulation
import CommandLine.Proofs.Parser.Reordering
import CommandLine.Proofs.Usage.Advertised
import CommandLine.Proofs.Parser.Settings
import CommandLine.Proofs.Parser.Sequence
import CommandLine.Proofs.Lookup.Insertion
import CommandLine.Proofs.Lookup.Lengthening
import CommandLine.Proofs.Parser.Paths
import CommandLine.Proofs.Parser.Invariant
import CommandLine.Proofs.Text.Overlong
import CommandLine.Proofs.Usage.HelpColumn
import CommandLine.Proofs.Table.FirstDefect
