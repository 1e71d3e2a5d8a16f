/-!
# Why a parse fails

A `Fault` is a cause, and `Fault.message` holds all the wording.
-/

namespace CommandLine

/-- The cause of a failed parse. -/
inductive Fault where
  /-- No long name matches what was given after `--`. -/
  | unknownOption (given : String)
  | unknownSwitch (switch : Char)
  /-- An unknown switch outside ASCII, for which the whole argument is quoted. -/
  | unknownNonAscii (argument : String)
  | requiresValue (option : String)
  | takesNoValue (option : String)
  | notAvailable (option : String)
  /-- Several names start with what was given after `--`. -/
  | ambiguous (given : String) (candidates : List String)
  | badTable (reason : String)
  | io (reason : String)
deriving DecidableEq, Repr

/-- Names as long options in a sentence: `--a, --b or --c`. -/
def enumerate : List String → String
  | [] => ""
  | [name] => "--" ++ name
  | [name, last] => "--" ++ name ++ " or --" ++ last
  | name :: rest => "--" ++ name ++ ", " ++ enumerate rest

namespace Fault

/-- What is said of a fault. -/
def message : Fault → String
  | unknownOption given => "unknown option '" ++ given ++ "'"
  | unknownSwitch switch => "unknown switch '" ++ switch.toString ++ "'"
  | unknownNonAscii argument => "unknown non-ascii option in string: '" ++ argument ++ "'"
  | requiresValue option => option ++ " requires a value"
  | takesNoValue option => option ++ " takes no value"
  | notAvailable option => option ++ " isn't available"
  | ambiguous given candidates =>
    "ambiguous option: " ++ given ++ " (could be " ++ enumerate candidates ++ ")"
  | badTable reason => "bad option table: " ++ reason
  | io reason => "I/O error: " ++ reason

/-- The diagnostic line of a fault. -/
def report (f : Fault) : String := "error: " ++ f.message ++ "\n"

end Fault

end CommandLine
