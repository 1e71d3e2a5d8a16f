import CommandLine.Table

/-!
# Finding an option by its long name

The text after `--`, up to an equals sign, is looked up in a table. Every option reads the
text in its own way (`Table.reading?`): as its name, as its negation, as the start of one of
the two, or not at all. The first exact reading wins, wherever it stands; without one, a
single abbreviation is as good as the name, and several are ambiguous (`Table.lookup`).

## The names an option answers to

An option answers to its long name, and one that is negatable to `no-` followed by that name.
A negatable option declared as `no-x` also answers to `x`, which is its negation, as long as no
option is declared as `x` (`Table.facingName`).
-/

namespace CommandLine

/-- How an option reads a text. -/
inductive Reading where
  /-- The text is the name that the option is held against. -/
  | exact (form : Form)
  /-- The text is `no-` and that name, and the option is negatable. -/
  | exactNegation (form : Form)
  /-- The text is `no-` and that name, and the option has no negation. It is read as the
  negation all the same, so that it is refused by name. -/
  | refusedNegation
  /-- The text is the start of that name, or of `no-` and that name, and not the whole. -/
  | abbreviation (form : Form)
deriving DecidableEq, Repr

namespace Reading

/-- The form in which the option is given. -/
def form : Reading → Form
  | exact f => f
  | exactNegation f => f
  | refusedNegation => .negated
  | abbreviation f => f

/-- Whether the text was a whole name, and not the start of one. -/
def isWhole : Reading → Bool
  | abbreviation _ => false
  | _ => true

end Reading

/-- The form of an option whose name is met plainly or under `no-`, given whether that name is
itself the negation of the declared one. -/
def Form.ofPolarity (negated facesNegation : Bool) : Form :=
  if negated != facesNegation then .negated else .long

/-- An option that reads the text, and its place in the table. -/
structure Hit where
  index : Nat
  entry : Entry
  reading : Reading
deriving DecidableEq, Repr

/-- The name that the reading of the text stands for, written out. -/
def Hit.name (h : Hit) : String := h.entry.invokedName (h.reading.form == .negated)

/-- The result of looking a text up. -/
inductive Lookup where
  | unknown
  | found (hit : Hit)
  | ambiguous (hits : List Hit)
deriving DecidableEq, Repr

/-- The choice among all options that read the text: the first whole reading, else the only
abbreviation. -/
def Lookup.ofHits (hits : List Hit) : Lookup :=
  match hits.find? (·.reading.isWhole) with
  | some hit => .found hit
  | none =>
    match hits with
    | [] => .unknown
    | [hit] => .found hit
    | _ => .ambiguous hits

/-- What is found is one of the hits. -/
theorem Lookup.mem_of_ofHits {hits : List Hit} {h : Hit} (hl : ofHits hits = .found h) :
    h ∈ hits := by
  unfold ofHits at hl
  split at hl
  · rename_i hfind
    cases hl
    exact List.mem_of_find?_eq_some hfind
  · split at hl
    · cases hl
    · cases hl
      exact List.mem_singleton_self _
    · cases hl

namespace Entry

/-- The name against which `text` is held, and whether it stands for the negation: `x` in the
place of a negatable `no-x`, unless the text has a `no-` of its own or `x` is `declared`. -/
def facingName (e : Entry) (declared : List Char → Bool) (text : List Char) : List Char × Bool :=
  match afterNo? e.long.toList with
  | some positive =>
    if e.negatable && (afterNo? text).isNone && !declared positive then (positive, true)
    else (e.long.toList, false)
  | none => (e.long.toList, false)

/-- How an entry reads `text`, if it does, among the `declared` names. The name comes before its
negation, and an option whose name starts with the text is not asked for its negation. -/
def reading? (e : Entry) (declared : List Char → Bool) (text : List Char) : Option Reading :=
  let (name, facesNegation) := e.facingName declared text
  let plain := Form.ofPolarity false facesNegation
  let underNo := Form.ofPolarity true facesNegation
  if e.isHeading || e.long == "" then none
  else if text = name then some (.exact plain)
  else if text.isPrefixOf name then some (.abbreviation plain)
  else if !e.negatable then
    if afterNo? text = some name then some .refusedNegation else none
  else if text.isPrefixOf ['n', 'o', '-'] then some (.abbreviation underNo)
  else
    match afterNo? text with
    | none => none
    | some rest =>
      if rest = name then some (.exactNegation underNo)
      else if rest.isPrefixOf name then some (.abbreviation underNo)
      else none

end Entry

namespace Table

/-- The name against which `text` is held for an entry of the table. -/
def facingName (t : Table) (text : List Char) (e : Entry) : List Char × Bool :=
  e.facingName t.hasLong text

/-- How an entry of the table reads `text`, if it does. -/
def reading? (t : Table) (text : List Char) (e : Entry) : Option Reading :=
  e.reading? t.hasLong text

/-- All options that read `text`, in the order of the table. -/
def hits (t : Table) (text : List Char) : List Hit :=
  t.zipIdx.filterMap fun (e, i) => (t.reading? text e).map fun r => ⟨i, e, r⟩

/-- Looks up a text. An empty text names nothing. -/
def lookup (t : Table) (text : List Char) : Lookup :=
  if text.isEmpty then .unknown
  else Lookup.ofHits (t.hits text)

/-- A hit is an entry of the table at its index, with its reading of the text. -/
theorem mem_hits_iff {t : Table} {text : List Char} {h : Hit} :
    h ∈ t.hits text ↔ t[h.index]? = some h.entry ∧ t.reading? text h.entry = some h.reading := by
  simp only [hits, List.mem_filterMap, Option.map_eq_some_iff, Prod.exists,
    List.mem_zipIdx_iff_getElem?]
  constructor
  · rintro ⟨e, i, hget, r, hr, rfl⟩
    exact ⟨hget, hr⟩
  · rintro ⟨hget, hr⟩
    exact ⟨h.entry, h.index, hget, h.reading, hr, rfl⟩

/-- What is found is a hit. -/
theorem mem_hits_of_lookup {t : Table} {text : List Char} {h : Hit}
    (hl : t.lookup text = .found h) : h ∈ t.hits text := by
  unfold lookup at hl
  split at hl
  · cases hl
  · exact Lookup.mem_of_ofHits hl

end Table

/-- The part of a long option before its first equals sign, and the value after it. -/
def splitAttached (given : List Char) : List Char × Option String :=
  match given.dropWhile (· != '=') with
  | [] => (given, none)
  | _ :: value => (given.takeWhile (· != '='), some (String.ofList value))

/-- A text without an equals sign has no value attached. -/
theorem splitAttached_of_notMem {text : List Char} (h : '=' ∉ text) :
    splitAttached text = (text, none) := by
  have hall : ∀ c ∈ text, (c != '=') = true := fun c hc => by
    simpa using fun he : c = '=' => h (he ▸ hc)
  have hdrop : (text ++ []).dropWhile (· != '=') = [] := List.dropWhile_append_of_pos hall
  rw [List.append_nil] at hdrop
  simp [splitAttached, hdrop]

/-- The first equals sign divides the name from the value. -/
theorem splitAttached_append {text : List Char} (h : '=' ∉ text) (value : List Char) :
    splitAttached (text ++ '=' :: value) = (text, some (String.ofList value)) := by
  have hall : ∀ c ∈ text, (c != '=') = true := fun c hc => by
    simpa using fun he : c = '=' => h (he ▸ hc)
  simp [splitAttached, List.dropWhile_append_of_pos hall, List.takeWhile_append_of_pos hall]

/-- What stood after two dashes, taken apart and looked up. -/
structure Resolution where
  /-- The part that is to be a name. -/
  text : List Char
  /-- The value attached with an equals sign. -/
  attached : Option String
  found : Lookup
deriving DecidableEq, Repr

/-- Takes apart what stood after two dashes, and looks the name up. -/
def Table.resolve (t : Table) (given : List Char) : Resolution :=
  let (text, attached) := splitAttached given
  ⟨text, attached, t.lookup text⟩

end CommandLine
