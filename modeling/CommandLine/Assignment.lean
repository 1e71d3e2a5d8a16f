import CommandLine.Cursor
import CommandLine.Entry
import CommandLine.Fault

/-!
# Assigning an option

When an option has been found, `Cursor.assign` decides whether it may be given in this form
and where its value comes from: attached to the option, its fallback, or the next argument.
The result is an `Assignment`, and `Assignment.apply` is the only way in which a slot changes.
Nothing here reads a slot.
-/

namespace CommandLine

/-- What a slot holds. -/
inductive Value where
  | number (n : Int32)
  | truth (b : Bool)
  | text (t : Option String)
  /-- The content of the slot of a heading. -/
  | nothing
deriving DecidableEq, Repr

/-- The contents of all slots of a table, in its order. -/
abbrev Slots := List Value

/-- One option of the table, given in `form` and, if it takes one, with a value. -/
structure Assignment where
  index : Nat
  entry : Entry
  form : Form
  value : Option String
deriving DecidableEq, Repr

namespace Assignment

/-- What the slot holds afterwards. A negation leaves zero, false or no text. -/
def content (a : Assignment) : Value :=
  match a.entry.kind with
  | .heading => .nothing
  | .switch onValue => .number (if a.form = .negated then 0 else onValue)
  | .flag => .truth (a.form != .negated)
  | .text | .path => .text a.value

/-- Overwrites the slot of the option. -/
def apply (slots : Slots) (a : Assignment) : Slots := slots.set a.index a.content

end Assignment

/-- A relative file name as seen from `directory`. The name `-`, an absolute name and any name
where no directory is given stay as they are. -/
def resolvePath (directory : Option String) (name : String) : String :=
  match directory with
  | none => name
  | some d =>
    if name == "-" || name.toList.head? == some '/' then name
    else if d == "" || d.toList.getLast? == some '/' then d ++ name
    else d ++ "/" ++ name

@[simp] theorem resolvePath_none (name : String) : resolvePath none name = name := rfl

/-- The name `-` stands for no file. -/
@[simp] theorem resolvePath_dash (directory : Option String) :
    resolvePath directory "-" = "-" := by
  cases directory <;> rfl

theorem resolvePath_of_absolute {name : String} (h : name.toList.head? = some '/')
    (directory : Option String) : resolvePath directory name = name := by
  cases directory with
  | none => rfl
  | some d => simp [resolvePath, h]

section

variable {directory name : String} (hfile : name ≠ "-") (hrelative : name.toList.head? ≠ some '/')

include hfile hrelative

/-- Behind an empty directory, or one that ends in a slash, a relative name comes at once. -/
theorem resolvePath_of_closed (h : directory = "" ∨ directory.toList.getLast? = some '/') :
    resolvePath (some directory) name = directory ++ name := by
  simp [resolvePath, hfile, hrelative, h]

/-- Any other directory is parted from a relative name by one slash. -/
theorem resolvePath_of_open (hne : directory ≠ "")
    (h : directory.toList.getLast? ≠ some '/') :
    resolvePath (some directory) name = directory ++ "/" ++ name := by
  simp [resolvePath, hfile, hrelative, hne, h]

end

/-- The value that an option stores for one given to it. -/
def Entry.stored (e : Entry) (directory : Option String) (value : String) : String :=
  if e.kind = .path then resolvePath directory value else value

namespace Cursor

/-- The value of an option, from the first place that has one. -/
def takeValue (c : Cursor) (e : Entry) (form : Form) : Except Fault (Option String × Cursor) :=
  match c.attached with
  | some value => .ok (some value, c.attach none)
  | none =>
    if e.optional then .ok (e.fallback, c)
    else
      match c.takeFollowing? with
      | some (value, c') => .ok (some value, c')
      | none => .error (.requiresValue (e.describe form))

/-- The value that an option given in `form` stores, and the cursor after it is taken. A switch
and a negation have none. -/
def assign (c : Cursor) (directory : Option String) (e : Entry) (form : Form) :
    Except Fault (Option String × Cursor) :=
  if form = .negated ∧ c.attached.isSome then .error (.takesNoValue (e.describe form))
  else if form = .negated ∧ !e.negatable then .error (.notAvailable (e.describe form))
  else if form ≠ .short ∧ c.attached.isSome ∧ e.refusesAttached then
    .error (.takesNoValue (e.describe form))
  else if form ≠ .negated ∧ e.takesValue then
    match c.takeValue e form with
    | .ok (value, c') => .ok (value.map (e.stored directory), c')
    | .error fault => .error fault
  else .ok (none, c)

theorem onward_of_takeValue {c c' : Cursor} {e : Entry} {form : Form} {value : Option String}
    (hrest : c.rest ≠ []) (h : c.takeValue e form = .ok (value, c')) : Onward c c' := by
  unfold takeValue at h
  split at h
  · cases h
    exact Onward.refl hrest
  · split at h
    · cases h
      exact Onward.refl hrest
    · split at h
      · rename_i hfollowing
        cases h
        exact onward_of_takeFollowing? hfollowing
      · cases h

/-- An assignment never moves the cursor back, nor past the value that it takes. -/
theorem onward_of_assign {c c' : Cursor} {directory : Option String} {e : Entry} {form : Form}
    {value : Option String} (hrest : c.rest ≠ [])
    (h : c.assign directory e form = .ok (value, c')) : Onward c c' := by
  unfold assign at h
  repeat' split at h
  all_goals cases h
  · rename_i hvalue
    exact onward_of_takeValue hrest hvalue
  · exact Onward.refl hrest

end Cursor

end CommandLine
