import CommandLine.Credential

/-!
# The credential-record program on the command line
-/

open CommandLine in
/-- Runs the program on the arguments and the environment of the process. -/
def main (args : List String) : IO UInt32 := do
  let directory ← IO.getEnv "PWD"
  let width ← IO.getEnv Credential.widthVariable
  let response := Credential.run args directory width
  IO.print response.stdout
  IO.eprint response.stderr
  return response.status
