import CommandLine.Text.Visible

/-!
# Quoted texts

The form in which a log line shows a text, an optional text or a list of texts: between
double quotes, with everything escaped that would not stand out on the line.
-/

namespace CommandLine.Text

/-- A character as its code point in lower-case hexadecimal, as in `\u{a0}`. -/
def escapeCodePoint (c : Char) : List Char :=
  ['\\', 'u', '\x7b'] ++ Nat.toDigits 16 c.toNat ++ ['\x7d']

/-- A character between quotes: the quote, the backslash and four controls have short escapes,
and what is not visible is given by its code point. -/
def escapeChar (c : Char) : List Char :=
  if c = '"' then ['\\', '"']
  else if c = '\\' then ['\\', '\\']
  else if c = '\n' then ['\\', 'n']
  else if c = '\r' then ['\\', 'r']
  else if c = '\t' then ['\\', 't']
  else if c = '\x00' then ['\\', '0']
  else if isVisible c then [c]
  else escapeCodePoint c

/-- A text between double quotes. -/
def quote (text : String) : String :=
  "\"" ++ String.ofList (text.toList.flatMap escapeChar) ++ "\""

/-- An optional text: `None`, or `Some` with the quoted text in parentheses. -/
def quoteOption : Option String → String
  | none => "None"
  | some text => "Some(" ++ quote text ++ ")"

/-- A list of quoted texts in square brackets. -/
def quoteList (texts : List String) : String :=
  "[" ++ ", ".intercalate (texts.map quote) ++ "]"

end CommandLine.Text
