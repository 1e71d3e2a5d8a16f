import CommandLine.Event
import CommandLine.Parser.Basic
import CommandLine.Table.Declared
import CommandLine.Usage.Written

/-!
# Options bound to their slots

A caller binds every option of a table to a slot, and a parse overwrites the slots where they are.
A `BoundTable` holds both, and a `BoundParser` has one in the place of a table.

Everything that is done with a table is a loop over bound options. `BoundTable.entries` forgets the
slots, and beside each loop stands a lemma that it comes to the same as for the entries alone:
none of them looks at what a slot holds.
-/

namespace CommandLine

/-! ## Slots -/

/-- Whether a slot of an option of this kind may hold the value. -/
def Kind.admits : Kind → Value → Bool
  | .heading, .nothing => true
  | .switch _, .number _ => true
  | .flag, .truth _ => true
  | .text, .text _ => true
  | .path, .text _ => true
  | _, _ => false

/-- What a switch writes when it is turned on. -/
def Kind.onValue : Kind → Int32
  | .switch n => n
  | _ => 1

/-- The slot that held `v`, overwritten. What it held only says which kind of slot it is. -/
def Value.overwritten (v : Value) (kind : Kind) (form : Form) (value : Option String) : Value :=
  match v with
  | .number _ => .number (if form = .negated then 0 else kind.onValue)
  | .truth _ => .truth (form != .negated)
  | .text _ => .text value
  | .nothing => .nothing

/-- A slot is overwritten with the content of the assignment. -/
theorem Value.overwritten_eq {v : Value} {e : Entry} (h : e.kind.admits v = true) (index : Nat)
    (form : Form) (value : Option String) :
    v.overwritten e.kind form value = Assignment.content ⟨index, e, form, value⟩ := by
  unfold Assignment.content
  cases hkind : e.kind <;> cases v <;> simp_all [Kind.admits, overwritten, Kind.onValue]

theorem Value.admits_overwritten {v : Value} {kind : Kind} (h : kind.admits v = true) (form : Form)
    (value : Option String) : kind.admits (v.overwritten kind form value) = true := by
  cases kind <;> cases v <;> simp_all [Kind.admits, overwritten]

/-- An option, or a heading, and its slot. -/
structure Bound where
  entry : Entry
  slot : Value
  admitted : entry.kind.admits slot = true := by rfl
deriving DecidableEq, Repr

/-- Overwrites the slot. -/
def Bound.overwrite (b : Bound) (form : Form) (value : Option String) : Bound where
  entry := b.entry
  slot := b.slot.overwritten b.entry.kind form value
  admitted := Value.admits_overwritten b.admitted form value

/-- Options and headings with their slots, in the order of their declaration. -/
abbrev BoundTable := List Bound

namespace BoundTable

/-- The declarations without the slots. -/
def entries (t : BoundTable) : Table := t.map (·.entry)

@[simp] theorem entries_nil : entries [] = [] := rfl

@[simp] theorem entries_cons (b : Bound) (more : BoundTable) :
    entries (b :: more) = b.entry :: more.entries := rfl

/-- What the slots hold. -/
def slots (t : BoundTable) : Slots := t.map (·.slot)

/-- Overwrites the slot at `index`. -/
def overwrite (t : BoundTable) (index : Nat) (form : Form) (value : Option String) : BoundTable :=
  t.modify index (·.overwrite form value)

/-- The declarations stay as they are. -/
@[simp] theorem entries_overwrite (t : BoundTable) (index : Nat) (form : Form)
    (value : Option String) : (t.overwrite index form value).entries = t.entries := by
  refine List.ext_getElem? fun j => ?_
  simp only [entries, overwrite, List.getElem?_map, List.getElem?_modify]
  cases t[j]? with
  | none => rfl
  | some b => by_cases hj : index = j <;> simp [hj, Bound.overwrite]

/-- Only the slot at `index` changes. -/
theorem slots_overwrite {t : BoundTable} {index : Nat} {e : Entry}
    (h : t.entries[index]? = some e) (form : Form) (value : Option String) :
    (t.overwrite index form value).slots = Assignment.apply t.slots ⟨index, e, form, value⟩ := by
  rw [entries, List.getElem?_map, Option.map_eq_some_iff] at h
  obtain ⟨b, hget, rfl⟩ := h
  refine List.ext_getElem? fun j => ?_
  simp only [slots, overwrite, Assignment.apply, List.getElem?_map, List.getElem?_modify]
  by_cases hj : index = j
  · subst hj
    have hslot : index < (t.map (·.slot)).length := by
      simpa using (List.getElem?_eq_some_iff.1 hget).1
    rw [List.getElem?_set_self hslot, hget]
    simp [Bound.overwrite, Value.overwritten_eq b.admitted index]
  · rw [List.getElem?_set_ne hj, List.getElem?_map]
    cases t[j]? <;> simp [hj]

/-! ## Loops over bound options -/

/-- Checks the options one after the other. -/
def check (t : BoundTable) : Except Defect Declared :=
  t.foldlM (fun seen b => seen.enter b.entry) {}

theorem check_entries (t : BoundTable) : t.entries.check = t.check := by
  rw [Table.check, entries, List.foldlM_map]
  rfl

/-- Whether an option is declared under the long name `name`. -/
def hasLong (t : BoundTable) (name : List Char) : Bool :=
  t.any fun b => !b.entry.isHeading && b.entry.long.toList == name

theorem hasLong_entries (t : BoundTable) : t.entries.hasLong = t.hasLong := by
  funext name
  rw [Table.hasLong, entries, List.any_map]
  rfl

/-- The place of the option with the short name `c`, counted from `index`, and its declaration. -/
def findShort? (c : Char) (index : Nat) : BoundTable → Option (Nat × Entry)
  | [] => none
  | b :: more =>
    if !b.entry.isHeading && b.entry.short == some c then some (index, b.entry)
    else findShort? c (index + 1) more

theorem find?_zipIdx_entries (c : Char) (index : Nat) (t : BoundTable) :
    ((t.entries.zipIdx index).find? fun x => !x.1.isHeading && x.1.short == some c).map
      Prod.swap = findShort? c index t := by
  induction t generalizing index with
  | nil => rfl
  | cons b more ih =>
    rw [findShort?, entries_cons, List.zipIdx_cons, List.find?_cons]
    by_cases hb : (!b.entry.isHeading && b.entry.short == some c) = true
    · simp [hb]
    · simpa [hb] using ih (index + 1)

theorem findShort?_entries (t : BoundTable) (c : Char) :
    t.entries.findShort? c = findShort? c 0 t := t.find?_zipIdx_entries c 0

/-- Holds the options from `index` on against `text`, with those that it abbreviates so far. The
first whole reading ends the search. -/
def scan (declared : List Char → Bool) (text : List Char) (candidates : List Hit) (index : Nat) :
    BoundTable → Lookup
  | [] =>
    match candidates with
    | [] => .unknown
    | [hit] => .found hit
    | hits => .ambiguous hits
  | b :: more =>
    match b.entry.reading? declared text with
    | none => scan declared text candidates (index + 1) more
    | some reading =>
      let hit : Hit := ⟨index, b.entry, reading⟩
      if reading.isWhole then .found hit
      else scan declared text (candidates ++ [hit]) (index + 1) more

/-- Looks a text up. -/
def lookup (t : BoundTable) (text : List Char) : Lookup :=
  if text.isEmpty then .unknown
  else scan t.hasLong text [] 0 t

/-- The search comes to the choice among all options that read the text. -/
theorem scan_eq {declared : List Char → Bool} {text : List Char} {candidates : List Hit}
    (hopen : candidates.find? (·.reading.isWhole) = none) (index : Nat) (t : BoundTable) :
    scan declared text candidates index t =
      Lookup.ofHits (candidates ++ (t.entries.zipIdx index).filterMap fun x =>
        (x.1.reading? declared text).map fun r => ⟨x.2, x.1, r⟩) := by
  induction t generalizing candidates index with
  | nil =>
    rw [entries_nil, List.zipIdx_nil, List.filterMap_nil, List.append_nil]
    unfold scan Lookup.ofHits
    rw [hopen]
    rcases candidates with _ | ⟨hit, _ | ⟨hit', hits⟩⟩ <;> rfl
  | cons b more ih =>
    rw [entries_cons, List.zipIdx_cons, List.filterMap_cons]
    unfold scan
    cases hread : b.entry.reading? declared text with
    | none => exact ih hopen (index + 1)
    | some reading =>
      dsimp only [Option.map_some]
      cases hwhole : reading.isWhole with
      | true =>
        unfold Lookup.ofHits
        simp [List.find?_append, hopen, hwhole]
      | false =>
        let hit : Hit := ⟨index, b.entry, reading⟩
        have hopen' : (candidates ++ [hit]).find? (·.reading.isWhole) = none := by
          simpa [hit, hwhole] using hopen
        rw [if_neg Bool.false_ne_true, ih hopen', List.append_assoc, List.singleton_append]

theorem lookup_entries (t : BoundTable) (text : List Char) :
    t.entries.lookup text = t.lookup text := by
  unfold Table.lookup lookup Table.hits Table.reading?
  rw [hasLong_entries, scan_eq rfl, List.nil_append]

/-- Writes what the usage text says of the options. Where it has not begun with a heading it
begins with a blank line. -/
def writeEntries (l : Layout) (declared : List Char → Bool) (needsBlank : Bool) :
    BoundTable → Writing
  | [] => pure ()
  | b :: more => do
    if needsBlank && !b.entry.isHeading then Writing.put "\n"
    b.entry.write l declared
    writeEntries l declared false more

/-- Behind the first entry no blank line is missing. -/
theorem writeEntries_false (l : Layout) (declared : List Char → Bool) (t : BoundTable) :
    writeEntries l declared false t = t.entries.forM (Entry.write l declared) := by
  induction t with
  | nil => rfl
  | cons b more ih =>
    rw [writeEntries, ih]
    rfl

/-- Writes the usage text. -/
def writeUsage (t : BoundTable) (calls : List String) (l : Layout) : Writing := do
  writeCalls calls
  writeEntries l t.hasLong true t
  Writing.put "\n"

theorem writeUsage_entries (t : BoundTable) (calls : List String) (l : Layout) :
    t.entries.writeUsage calls l = t.writeUsage calls l := by
  unfold Table.writeUsage writeUsage
  rw [hasLong_entries]
  cases t with
  | nil => rfl
  | cons b more =>
    rw [entries_cons, writeEntries, writeEntries_false]
    unfold Table.writeLead
    cases hheading : b.entry.isHeading <;> simp [hheading]

end BoundTable

/-! ## Parsers -/

/-- A parser whose options are bound to slots. -/
structure BoundParser where
  options : BoundTable
  calls : List String := []
  mode : Mode := {}
  layout : Layout := {}
  directory : Option String := none
deriving DecidableEq, Repr

namespace BoundParser

/-- The parser without the slots. -/
def unbound (p : BoundParser) : Parser where
  table := p.options.entries
  calls := p.calls
  mode := p.mode
  layout := p.layout
  directory := p.directory

/-- What the slots hold. -/
def slots (p : BoundParser) : Slots := p.options.slots

/-- Writes the usage text of a parser. -/
def writeUsage (p : BoundParser) : Writing := p.options.writeUsage p.calls p.layout

/-- Overwrites the slot at `index`. -/
def overwrite (p : BoundParser) (index : Nat) (form : Form) (value : Option String) :
    BoundParser :=
  { p with options := p.options.overwrite index form value }

@[simp] theorem unbound_overwrite (p : BoundParser) (index : Nat) (form : Form)
    (value : Option String) : (p.overwrite index form value).unbound = p.unbound := by
  simp [overwrite, unbound]

end BoundParser

end CommandLine
