/-!
# Lines of a text

A line feed ends a line, and a carriage return directly before it belongs to the ending.
The last line needs no ending, and a text that ends in one has no empty line after it.
-/

namespace CommandLine.Text

/-- The lines of a text, without their endings. A carriage return that no line feed follows
is a character like any other. -/
def lines : List Char → List (List Char)
  | [] => []
  | '\n' :: text => [] :: lines text
  | '\r' :: '\n' :: text => [] :: lines text
  | c :: text =>
    match lines text with
    | [] => [[c]]
    | line :: rest => (c :: line) :: rest

@[simp] theorem lines_nil : lines [] = [] := rfl

/-- No line holds a line feed. -/
theorem newline_notMem_of_mem_lines {text l : List Char} (h : l ∈ lines text) : '\n' ∉ l := by
  fun_induction lines text generalizing l with
  | case1 => simp at h
  | case2 text ih =>
    rcases List.mem_cons.1 h with rfl | h
    · simp
    · exact ih h
  | case3 text ih =>
    rcases List.mem_cons.1 h with rfl | h
    · simp
    · exact ih h
  | case4 c text hc =>
    rw [List.mem_singleton] at h
    simpa [h] using fun he => hc he.symm
  | case5 c text hc _ line rest hlines ih =>
    rw [hlines] at ih
    rcases List.mem_cons.1 h with rfl | h
    · simpa using ⟨fun he => hc he.symm, ih List.mem_cons_self⟩
    · exact ih (List.mem_cons_of_mem _ h)

end CommandLine.Text
