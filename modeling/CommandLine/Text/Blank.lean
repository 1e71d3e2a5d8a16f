import CommandLine.Text.CharRange

/-!
# White space

The Unicode property `White_Space`, which is wider than the blanks of ASCII: a no-break
space and an ideographic space have it, a zero-width space does not.
-/

namespace CommandLine.Text

/-- The ranges of the Unicode property `White_Space`, in order. -/
def blankRanges : List CharRange :=
  [⟨0x09, 0x0d⟩, ⟨0x20, 0x20⟩, ⟨0x85, 0x85⟩, ⟨0xa0, 0xa0⟩, ⟨0x1680, 0x1680⟩, ⟨0x2000, 0x200a⟩,
   ⟨0x2028, 0x2029⟩, ⟨0x202f, 0x202f⟩, ⟨0x205f, 0x205f⟩, ⟨0x3000, 0x3000⟩]

/-- Whether `c` is white space. -/
def isBlank (c : Char) : Bool := blankRanges.any (·.has c)

end CommandLine.Text
