import CommandLine.Fault
import CommandLine.Sink

/-!
# Writing text by text

A `Writing` puts one text after the other into a writer. The first text that does not fit ends
it: the writer has kept what there was room for, and nothing more is written.
-/

namespace CommandLine

/-- Texts to be written one after the other. It fails with what the I/O error says, in the writer
as it is then. -/
abbrev Writing := EStateM String Sink Unit

/-- Writes one text, or as much of it as there is room for. -/
def Writing.put (text : String) : Writing := fun s =>
  if s.fits text then .ok () (s.write text) else .error Sink.overflowMessage (s.write text)

open Writing

/-- Writes the diagnostic line of a fault. -/
def Fault.write (f : Fault) : Writing := do
  put "error: "
  put f.message
  put "\n"

end CommandLine
