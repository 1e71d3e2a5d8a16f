import CommandLine.Table

/-!
# Checking a table in one pass

A pass over a table keeps the names declared so far in two sets: the short names, and the pairs of
a short and a long name. Each option is checked against them before its own names are added
(`Declared.enter`), and the first that is refused ends the pass (`Table.check`).
-/

namespace CommandLine

/-- The names that the entries passed so far declare. -/
structure Declared where
  /-- How many entries have been passed, headings among them. -/
  count : Nat := 0
  shorts : List Char := []
  /-- The short and the long name of every option. -/
  pairs : List (Option Char × String) := []
deriving DecidableEq, Repr

namespace Declared

/-- Adds a short name to the set of those, where it must be new. -/
def enterShort (seen : Declared) : Option Char → Except Defect Declared
  | none => .ok seen
  | some c =>
    if Entry.isBadShort c then .error (.badShort c)
    else if seen.shorts.contains c then .error (.shortTwice c)
    else .ok { seen with shorts := seen.shorts ++ [c] }

/-- Adds both names of an option to the set of pairs, where they must be new. -/
def enterPair (seen : Declared) (short : Option Char) (long : String) : Except Defect Declared :=
  if seen.pairs.contains (short, long) then .error (.longTwice long)
  else .ok { seen with pairs := seen.pairs ++ [(short, long)] }

/-- Checks the next entry, and adds its names. -/
def enter (seen : Declared) (e : Entry) : Except Defect Declared :=
  if e.isHeading then .ok { seen with count := seen.count + 1 }
  else if e.long == "" && e.short.isNone then .error (.nameless seen.count)
  else if e.hasBadLong then .error (.badLong e.long)
  else do
    let seen ← seen.enterShort e.short
    let seen ← seen.enterPair e.short e.long
    return { seen with count := seen.count + 1 }

end Declared

/-- Checks the entries one after the other. -/
def Table.check (t : Table) : Except Defect Declared := t.foldlM Declared.enter {}

end CommandLine
