/-!
# Modes of parsing

Two independent choices about the arguments that are no options.
-/

namespace CommandLine

/-- How arguments that are no options are treated. -/
structure Mode where
  /-- The first argument is kept without being looked at. -/
  keepFirst : Bool := false
  /-- The first argument that is no option ends the parse. -/
  stopAtPositional : Bool := false
deriving DecidableEq, Repr

namespace Mode

/-- Only the first argument is treated apart. -/
def keepingFirst : Mode := { keepFirst := true }

/-- Only the first positional argument is treated apart. -/
def stoppingAtPositional : Mode := { stopAtPositional := true }

/-- What either mode asks for. -/
def union (a b : Mode) : Mode :=
  ⟨a.keepFirst || b.keepFirst, a.stopAtPositional || b.stopAtPositional⟩

/-- Whether `a` asks for all that `b` asks for. -/
def contains (a b : Mode) : Bool :=
  (!b.keepFirst || a.keepFirst) && (!b.stopAtPositional || a.stopAtPositional)

end Mode

end CommandLine
