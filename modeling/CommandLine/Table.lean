import CommandLine.Entry
import CommandLine.Text.Blank

/-!
# Option tables

A `Table` is a list of entries in the order of declaration. `Table.defect?` finds the first
entry that makes the table unfit for parsing.
-/

namespace CommandLine

/-- Options and headings in the order of their declaration. -/
abbrev Table := List Entry

/-- The rule that an entry breaks. -/
inductive Defect where
  /-- The entry at `index` has neither a long nor a short name. -/
  | nameless (index : Nat)
  /-- The long name starts with a dash or holds an equals sign. -/
  | badLong (name : String)
  /-- The short name is a dash or white space. -/
  | badShort (short : Char)
  /-- An earlier entry has the same short name. -/
  | shortTwice (short : Char)
  /-- An earlier entry has the same long name, and neither has a short one. -/
  | longTwice (name : String)
deriving DecidableEq, Repr

/-- What is said of a defect. -/
def Defect.message : Defect → String
  | nameless index => "option #" ++ toString index ++ " has neither a short nor a long name"
  | badLong name => "invalid long name '" ++ name ++ "'"
  | badShort short => "invalid switch '" ++ short.toString ++ "'"
  | shortTwice short => "switch '" ++ short.toString ++ "' declared twice"
  | longTwice name => "option '" ++ name ++ "' declared twice"

namespace Entry

/-- Whether a long name would be taken apart on the command line. -/
def hasBadLong (e : Entry) : Bool := e.long.toList.head? == some '-' || e.long.toList.contains '='

/-- Whether a short name could be taken for the start of something else. -/
def isBadShort (c : Char) : Bool := c == '-' || Text.isBlank c

/-- What is wrong with the entry at `index`, after the `earlier` ones. -/
def defect? (earlier : List Entry) (index : Nat) (e : Entry) : Option Defect :=
  let options := earlier.filter (!·.isHeading)
  if e.isHeading then none
  else if e.long == "" && e.short.isNone then some (.nameless index)
  else if e.hasBadLong then some (.badLong e.long)
  else
    match e.short with
    | some c =>
      if isBadShort c then some (.badShort c)
      else if options.any (·.short == some c) then some (.shortTwice c)
      else none
    | none =>
      if options.any fun o => o.short.isNone && o.long == e.long then some (.longTwice e.long)
      else none

end Entry

namespace Table

/-- The defect of the first entry that has one. -/
def defect? (t : Table) : Option Defect :=
  t.zipIdx.findSome? fun (e, i) => e.defect? (t.take i) i

/-- Whether an option, and not a heading, is declared under the long name `name`. -/
def hasLong (t : Table) (name : List Char) : Bool :=
  t.any fun e => !e.isHeading && e.long.toList == name

/-- The option with the short name `c`, and its place in the table. -/
def findShort? (t : Table) (c : Char) : Option (Nat × Entry) :=
  (t.zipIdx.find? fun (e, _) => !e.isHeading && e.short == some c).map fun (e, i) => (i, e)

/-- Only an option of the table is found by its short name. -/
theorem getElem?_of_findShort? {t : Table} {c : Char} {i : Nat} {e : Entry}
    (h : t.findShort? c = some (i, e)) :
    t[i]? = some e ∧ e.isHeading = false ∧ e.short = some c := by
  unfold findShort? at h
  rw [Option.map_eq_some_iff] at h
  obtain ⟨⟨e', i'⟩, hfind, heq⟩ := h
  cases heq
  have hmem := List.mem_of_find?_eq_some hfind
  have hsat := List.find?_some hfind
  rw [List.mem_zipIdx_iff_getElem?] at hmem
  simp only [Bool.and_eq_true, Bool.not_eq_true', beq_iff_eq] at hsat
  exact ⟨hmem, hsat⟩

end Table

end CommandLine
