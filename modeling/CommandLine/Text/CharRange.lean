/-!
# Sets of characters as ranges

A `CharRange` is an interval of code points, both ends included. A list of them is the
form in which the tables of `Text.Blank` and `Text.Visible` are written down.
-/

namespace CommandLine.Text

/-- The characters whose code points lie between `first` and `last`, both included. -/
structure CharRange where
  first : Nat
  last : Nat
deriving DecidableEq, Repr

namespace CharRange

/-- Whether the range holds `c`. -/
def has (r : CharRange) (c : Char) : Bool := r.first ≤ c.toNat && c.toNat ≤ r.last

end CharRange

end CommandLine.Text
