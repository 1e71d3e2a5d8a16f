/-!
# Wrapping a line

`wrap limit line` breaks a line at spaces into pieces of at most `limit` characters. A break
falls on the last space that leaves a piece short enough, and all spaces around it go. Where
no space leaves one short enough, the rest of the line is one piece.

## Strategy

A line that is too long is looked at through its first `limit + 1` characters: a space there
leaves at most `limit` characters before it. A space at the very front is no break, so each
break shortens the line (`breakAt?_pos`), and the recursion ends.
-/

namespace CommandLine.Text

/-- The position of the last space. -/
def lastSpace? : List Char → Option Nat
  | [] => none
  | c :: cs =>
    match lastSpace? cs with
    | some i => some (i + 1)
    | none => if c = ' ' then some 0 else none

/-- Where a line that exceeds `limit` is broken: at the last space among its first `limit + 1`
characters, unless that is its first character. -/
def breakAt? (limit : Nat) (line : List Char) : Option Nat :=
  (lastSpace? (line.take (limit + 1))).filter (0 < ·)

/-- The text without the spaces at its front. -/
def dropSpaces (text : List Char) : List Char := text.dropWhile (· == ' ')

/-- The text without the spaces at its end. -/
def dropEndSpaces (text : List Char) : List Char := (dropSpaces text.reverse).reverse

theorem breakAt?_pos {limit i : Nat} {line : List Char} (h : breakAt? limit line = some i) :
    0 < i := by
  unfold breakAt? at h
  rw [Option.filter_eq_some_iff] at h
  simpa using h.2

theorem length_dropSpaces_le (text : List Char) : (dropSpaces text).length ≤ text.length :=
  (List.dropWhile_sublist _).length_le

/-- What stands after a break is shorter than the line that was broken. -/
theorem length_afterBreak_lt {limit i : Nat} {line : List Char} (hlong : limit < line.length)
    (h : breakAt? limit line = some i) : (dropSpaces (line.drop i)).length < line.length := by
  have hi := breakAt?_pos h
  have hle := length_dropSpaces_le (line.drop i)
  rw [List.length_drop] at hle
  omega

/-- The pieces of a line. There is at least one, and none but the first is empty. A word that
does not fit ends the wrapping, so that the last piece may exceed `limit`. -/
def wrap (limit : Nat) (line : List Char) : List (List Char) :=
  if _ : line.length ≤ limit then [line]
  else
    match _ : breakAt? limit line with
    | none => [line]
    | some i =>
      let rest := dropSpaces (line.drop i)
      dropEndSpaces (line.take i) :: (if rest.isEmpty then [] else wrap limit rest)
termination_by line.length
decreasing_by exact length_afterBreak_lt (Nat.lt_of_not_le ‹_›) ‹_›

theorem wrap_of_length_le {limit : Nat} {line : List Char} (h : line.length ≤ limit) :
    wrap limit line = [line] := by
  rw [wrap, dif_pos h]

theorem wrap_ne_nil (limit : Nat) (line : List Char) : wrap limit line ≠ [] := by
  rw [wrap]
  split
  · simp
  · split <;> simp

end CommandLine.Text
