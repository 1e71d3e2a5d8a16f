import CommandLine.Mode

/-!
# The cursor on an argument vector

A `Cursor` divides the vector at the argument under it: what was kept unseen, what has been
handled, and the rest. `Cursor.tokens` puts the vector together again, and no operation
changes it. `Cursor.residual` is what remains of the vector when the parse ends here.
-/

namespace CommandLine

/-- A place in an argument vector, with what has been collected on the way to it. -/
structure Cursor where
  /-- The first argument, if it is kept without being looked at. -/
  kept : List String := []
  /-- The arguments behind the cursor. -/
  handled : List String := []
  /-- The argument under the cursor and those after it. -/
  rest : List String
  /-- The positional arguments among those handled. -/
  positionals : List String := []
  /-- A value attached to the option under the cursor, until it is taken. -/
  attached : Option String := none
deriving DecidableEq, Repr

namespace Cursor

/-- The cursor in front of everything that is to be parsed. -/
def start (mode : Mode) (argv : List String) : Cursor :=
  if mode.keepFirst then { kept := argv.take 1, rest := argv.drop 1 } else { rest := argv }

/-- The whole argument vector. -/
def tokens (c : Cursor) : List String := c.kept ++ c.handled ++ c.rest

/-- How many arguments lie behind the cursor. -/
def position (c : Cursor) : Nat := (c.kept ++ c.handled).length

/-- What remains of the vector: the argument kept, the positional ones, and all that the
cursor has not passed. -/
def residual (c : Cursor) : List String := c.kept ++ c.positionals ++ c.rest

/-- Whether the argument under the cursor is the only one to be parsed. -/
def isLone (c : Cursor) : Bool := c.handled.isEmpty && c.rest.length == 1

/-- Passes the argument under the cursor. -/
def advance (c : Cursor) : Cursor :=
  match c.rest with
  | [] => c
  | token :: rest => { c with handled := c.handled ++ [token], rest }

/-- Collects a positional argument. -/
def collect (c : Cursor) (token : String) : Cursor :=
  { c with positionals := c.positionals ++ [token] }

/-- Sets down the value that is attached to the option under the cursor. -/
def attach (c : Cursor) (value : Option String) : Cursor := { c with attached := value }

/-- Moves on to the next argument, which is taken as a value. -/
def takeFollowing? (c : Cursor) : Option (String × Cursor) :=
  match c.rest with
  | _ :: value :: _ => some (value, c.advance)
  | _ => none

@[simp] theorem tokens_start (mode : Mode) (argv : List String) :
    (start mode argv).tokens = argv := by
  unfold start tokens
  split
  · rw [List.append_nil, List.take_append_drop]
  · rfl

@[simp] theorem tokens_advance (c : Cursor) : c.advance.tokens = c.tokens := by
  unfold advance tokens
  split <;> simp_all

@[simp] theorem tokens_collect (c : Cursor) (token : String) :
    (c.collect token).tokens = c.tokens := rfl

@[simp] theorem tokens_attach (c : Cursor) (value : Option String) :
    (c.attach value).tokens = c.tokens := rfl

@[simp] theorem rest_collect (c : Cursor) (token : String) : (c.collect token).rest = c.rest := rfl

@[simp] theorem rest_attach (c : Cursor) (value : Option String) :
    (c.attach value).rest = c.rest := rfl

theorem rest_advance_of_cons {c : Cursor} {token : String} {rest : List String}
    (h : c.rest = token :: rest) : c.advance.rest = rest := by
  simp [advance, h]

/-- Passing an argument leaves one less. -/
theorem length_rest_advance_lt {c : Cursor} (h : c.rest ≠ []) :
    c.advance.rest.length < c.rest.length := by
  obtain ⟨token, rest, hrest⟩ := List.exists_cons_of_ne_nil h
  simp [rest_advance_of_cons hrest, hrest]

theorem takeFollowing?_eq_some_iff {c c' : Cursor} {value : String} :
    c.takeFollowing? = some (value, c') ↔
      c' = c.advance ∧ ∃ token more, c.rest = token :: value :: more := by
  unfold takeFollowing?
  split
  · rename_i token value' more hrest
    simp [hrest, eq_comm, and_comm]
  · rename_i hrest
    simpa using fun _ token more he => hrest token value more he

/-- The cursor `c'` stands on an argument, and on none that `c` has passed. -/
def Onward (c c' : Cursor) : Prop := c'.rest ≠ [] ∧ c'.rest.length ≤ c.rest.length

theorem Onward.refl {c : Cursor} (h : c.rest ≠ []) : Onward c c := ⟨h, Nat.le_refl _⟩

theorem Onward.trans {a b c : Cursor} (hab : Onward a b) (hbc : Onward b c) : Onward a c :=
  ⟨hbc.1, Nat.le_trans hbc.2 hab.2⟩

theorem onward_attach_iff {c c' : Cursor} {value : Option String} :
    Onward (c.attach value) c' ↔ Onward c c' := Iff.rfl

/-- Taking the next argument as a value leaves the cursor on that argument. -/
theorem onward_of_takeFollowing? {c c' : Cursor} {value : String}
    (h : c.takeFollowing? = some (value, c')) : Onward c c' := by
  obtain ⟨rfl, token, more, hrest⟩ := takeFollowing?_eq_some_iff.1 h
  simp [Onward, rest_advance_of_cons hrest, hrest]

end Cursor

end CommandLine
