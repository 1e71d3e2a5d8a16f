import CommandLine.Parser

/-!
# The credential-record program

`pk-options` takes the fields of a credential record from the command line and prints what each
field holds, then the arguments that remain. Here it is a function of its arguments and its
surroundings.
-/

namespace CommandLine.Credential

/-- The ways to call the program. -/
def calls : List String :=
  ["pk-options <fields> [<options>] [--] [<args>...]",
   "pk-options --sitename <name> --username <name>\n--password <pwd>"]

/-- The fields of a record and the options of the program. -/
def table : Table :=
  [{ kind := .heading, help := "Record fields" },
   { kind := .text, long := "sitename", placeholder := some "name"
     help := "human readable name of a website" },
   { kind := .text, long := "siteurl", placeholder := some "url"
     help := "url that used for disambiguation" },
   { kind := .text, long := "username", short := some 'u', placeholder := some "name"
     help := "identification that can be used to login" },
   { kind := .text, long := "password", short := some 'p', placeholder := some "pwd"
     help := "secret phrase that can be used to login" },
   { kind := .text, long := "authtext", placeholder := some "ans"
     help := "predefined question selected during account creation" },
   { kind := .text, long := "bakcode", placeholder := some "code"
     help := "backup code used for account recovery purposes" },
   { kind := .text, long := "comment", negatable := true, placeholder := some "text"
     help := "free-form note kept with the record" },
   { kind := .heading, help := "Options" },
   { kind := .switch 1, long := "verbose", short := some 'v', help := "be verbose" },
   { kind := .flag, long := "confirm", negatable := true
     help := "ask before writing the record" },
   { kind := .path, long := "db-path", short := some 'd', placeholder := some "file"
     help := "credential database, relative to the working directory" },
   { kind := .text, long := "format", optional := true, fallback := some "plain"
     placeholder := some "fmt", help := "output format\n(plain when given without a value)" }]

/-- The slots before parsing. A record is confirmed unless the user says otherwise. -/
def slots : Slots :=
  [.nothing, .text none, .text none, .text none, .text none, .text none, .text none, .text none,
   .nothing, .number 0, .truth true, .text none, .text none]

/-- The environment variable that moves the help column. -/
def widthVariable : String := "OPTPARSE_USAGE_WIDTH"

/-- A width as a user writes it: decimal digits, after a plus sign if one likes, for a number
below 2⁶⁴. -/
def parseWidth? (text : String) : Option Nat :=
  let digits := match text.toList with
    | '+' :: digits => digits
    | digits => digits
  if digits.isEmpty || !digits.all Char.isDigit then none
  else
    let width := digits.foldl (fun n d => 10 * n + (d.toNat - '0'.toNat)) 0
    if width < UInt64.size then some width else none

/-- The layout that the environment asks for. -/
def layout (width : Option String) : Layout :=
  match width.bind parseWidth? with
  | some column => { column }
  | none => {}

/-- The warning about a width that is none. -/
def widthWarning (width : Option String) : String :=
  match width with
  | none => ""
  | some text =>
    if (parseWidth? text).isSome then ""
    else "[WARN  pk_options] ignoring " ++ widthVariable ++ "=" ++ Text.quote text ++ "\n"

/-- What a slot holds, in print. -/
def shown : Value → String
  | .number n => toString n.toInt
  | .truth b => if b then "true" else "false"
  | .text t => t.getD "(null)"
  | .nothing => ""

/-- The lines that print every field of the record. -/
def fieldLines (slots : Slots) : List String :=
  ((table.zip slots).filter fun (e, _) => !e.isHeading).map fun (e, v) =>
    e.long ++ ": " ++ shown v ++ "\n"

/-- The lines that print the arguments that remain. -/
def argumentLines (argv : List String) : List String :=
  ("argc: " ++ toString argv.length ++ "\n") ::
    argv.zipIdx.map fun (arg, i) => "argv[" ++ toString i ++ "]: " ++ arg ++ "\n"

/-- What a program leaves behind. -/
structure Response where
  status : UInt32
  stdout : String
  stderr : String
deriving DecidableEq, Repr

/-- Runs the program in `directory`, with `width` in the environment. Nothing is printed of a
record whose parse does not go well. -/
def run (args : List String) (directory width : Option String) : Response :=
  let parser : Parser := { table, calls, layout := layout width, directory }
  let parsed := parser.parse args slots {} {}
  let record := match parsed.outcome with
    | .ok _ => String.join (fieldLines parsed.slots ++ argumentLines parsed.argv)
    | _ => ""
  { status := parsed.outcome.exitStatus
    stdout := parsed.out.text ++ record
    stderr := widthWarning width ++ parsed.err.text }

end CommandLine.Credential
