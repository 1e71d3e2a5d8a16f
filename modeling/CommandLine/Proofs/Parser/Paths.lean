import CommandLine.Proofs.Parser.Sequence
import CommandLine.Proofs.Parser.Simulation

/-!
# File names as plain texts

An option with a file name is one with a text, whose value is seen from the directory of the parser
before it is stored. With plain texts in the place of file names a parse does all the same, whatever
the arguments are, and only the slots of file names hold the values as they were given
(`Parser.resolved_parse`).

## Strategy

The two tables read every argument alike, and an option looks for its value in the same places
(`Mention.value?_asText`). That makes the parsers alike in the sense of `Parser.Resembles`, where an
assignment corresponds to the one that stores the value unseen (`Assignment.Resolves`).
-/

namespace CommandLine

/-! ## The table without file names -/

/-- What an entry declares, with a text in the place of a file name. -/
def Kind.asText : Kind → Kind
  | path => .text
  | kind => kind

namespace Entry

/-- The same entry, with a text in the place of a file name. -/
def asText (e : Entry) : Entry := { e with kind := e.kind.asText }

@[simp] theorem long_asText (e : Entry) : e.asText.long = e.long := rfl

@[simp] theorem short_asText (e : Entry) : e.asText.short = e.short := rfl

@[simp] theorem help_asText (e : Entry) : e.asText.help = e.help := rfl

@[simp] theorem negatable_asText (e : Entry) : e.asText.negatable = e.negatable := rfl

@[simp] theorem isHeading_asText (e : Entry) : e.asText.isHeading = e.isHeading := by
  unfold isHeading asText
  cases e.kind <;> rfl

@[simp] theorem takesValue_asText (e : Entry) : e.asText.takesValue = e.takesValue := by
  unfold takesValue asText
  cases e.kind <;> rfl

@[simp] theorem refusesAttached_asText (e : Entry) :
    e.asText.refusesAttached = e.refusesAttached := by
  rw [refusesAttached, takesValue_asText]
  rfl

@[simp] theorem describe_asText (e : Entry) (form : Form) :
    e.asText.describe form = e.describe form := rfl

/-- A text is stored as it is given. -/
theorem stored_asText (e : Entry) (directory : Option String) (value : String) :
    e.asText.stored directory value = value := by
  have hkind : e.asText.kind ≠ .path := by
    unfold asText
    cases e.kind <;> simp [Kind.asText]
  rw [stored, if_neg hkind]

/-- The usage text says the same of the entry. -/
theorem row_asText (e : Entry) : e.asText.row = e.row := by
  have hargument : e.asText.argument = e.argument := by
    unfold argument
    rw [refusesAttached_asText]
    rfl
  unfold row
  rw [hargument]
  rfl

theorem defect?_asText (earlier : List Entry) (index : Nat) (e : Entry) :
    e.asText.defect? (earlier.map asText) index = e.defect? earlier index := by
  unfold defect?
  simp [hasBadLong, List.filter_map, List.any_map, Function.comp_def]

end Entry

namespace Table

/-- The same table, with texts in the place of file names. -/
def asText (t : Table) : Table := t.map Entry.asText

theorem hasLong_asText (t : Table) (name : List Char) : t.asText.hasLong name = t.hasLong name := by
  simp [hasLong, asText, List.any_map, Function.comp_def]

theorem defect?_asText (t : Table) : t.asText.defect? = t.defect? := by
  unfold defect? asText
  rw [List.zipIdx_map, List.findSome?_map]
  congr 1
  funext x
  simp only [Function.comp_apply, Prod.map_fst, Prod.map_snd, id_eq]
  rw [← List.map_take, Entry.defect?_asText]

theorem findShort?_asText (t : Table) (c : Char) :
    t.asText.findShort? c = (t.findShort? c).map fun (i, e) => (i, e.asText) := by
  unfold findShort? asText
  rw [List.zipIdx_map, List.find?_map]
  simp [Function.comp_def]

theorem reading?_asText (t : Table) (text : List Char) (e : Entry) :
    t.asText.reading? text e.asText = t.reading? text e := by
  have hdeclared : t.asText.hasLong = t.hasLong := funext t.hasLong_asText
  have hfacing : e.asText.facingName t.hasLong text = e.facingName t.hasLong text := rfl
  rw [reading?, reading?, hdeclared, Entry.reading?, hfacing, Entry.isHeading_asText]
  rfl

end Table

/-- The same hit in the table without file names. -/
def Hit.asText (h : Hit) : Hit := { h with entry := h.entry.asText }

theorem Hit.reading_asText (h : Hit) : h.asText.reading = h.reading := rfl

namespace Table

/-- The same options read a text. -/
theorem hits_asText (t : Table) (text : List Char) :
    t.asText.hits text = (t.hits text).map Hit.asText := by
  unfold hits
  rw [asText, List.zipIdx_map, List.filterMap_map, List.map_filterMap, ← asText]
  refine List.filterMap_congr fun x _ => ?_
  simp only [Function.comp_apply, Prod.map_fst, Prod.map_snd, id_eq]
  rw [reading?_asText, Option.map_map]
  rfl

theorem lookup_asText (t : Table) (text : List Char) :
    t.asText.lookup text = (t.lookup text).map Hit.asText := by
  unfold lookup
  split
  · rfl
  · rw [hits_asText]
    exact Lookup.ofHits_map Hit.reading_asText _

theorem entryText_asText (t : Table) (l : Layout) (e : Entry) :
    t.asText.entryText l e.asText = t.entryText l e := by
  have hrows : t.asText.rows e.asText = t.rows e := by
    have hopposite : e.asText.opposite? = e.opposite? := rfl
    unfold rows Entry.rows
    rw [hopposite]
    simp only [hasLong_asText, Entry.row_asText]
  unfold entryText
  rw [hrows, Entry.isHeading_asText, Entry.help_asText]

theorem usage_asText (t : Table) (calls : List String) (l : Layout) :
    t.asText.usage calls l = t.usage calls l := by
  have hentries : t.asText.map (t.asText.entryText l) = t.map (t.entryText l) := by
    rw [asText, List.map_map, ← asText]
    exact List.map_congr_left fun e _ => t.entryText_asText l e
  unfold usage
  rw [hentries]
  cases t with
  | nil => rfl
  | cons e more =>
    show _ ++ (if e.asText.isHeading then "" else "\n") ++ _ ++ _ = _
    rw [Entry.isHeading_asText]

end Table

/-- The same parser, with texts in the place of file names. -/
def Parser.asText (p : Parser) : Parser := { p with table := p.table.asText }

theorem Parser.usage_asText (p : Parser) : p.asText.usage = p.usage :=
  p.table.usage_asText p.calls p.layout

/-! ## One argument -/

/-- An option looks for its value in the same places, and is refused for the same reasons. What it
stores is what it would store as a text, seen from the directory if it is a file name. -/
theorem Cursor.assign_asText (c : Cursor) (directory : Option String) (e : Entry) (form : Form) :
    c.assign directory e form =
      (c.assign directory e.asText form).map fun (value, c') =>
        (value.map (e.stored directory), c') := by
  have htake : c.takeValue e.asText form = c.takeValue e form := rfl
  have hstored : e.asText.stored directory = id := funext (e.stored_asText directory)
  unfold assign
  rw [htake, hstored]
  simp only [Entry.describe_asText, Entry.negatable_asText, Entry.refusesAttached_asText,
    Entry.takesValue_asText, Option.map_id, id_eq]
  repeat' split
  all_goals rfl

/-- The same option, mentioned in the same way. -/
def Mention.asText (m : Mention) : Mention := { m with entry := m.entry.asText }

theorem Mention.value?_asText (m : Mention) (directory : Option String) :
    m.value? directory =
      (m.asText.value? directory).map (Option.map (m.entry.stored directory)) := by
  unfold value? asText
  rw [Cursor.assign_asText]
  cases Cursor.assign _ directory m.entry.asText m.form <;> rfl

theorem Mention.wantsNext_asText (m : Mention) : m.asText.WantsNext ↔ m.WantsNext := by
  unfold WantsNext
  rw [show m.asText.entry.takesValue = m.entry.takesValue from m.entry.takesValue_asText]
  rfl

/-- The assignment `a` stores to an option of the table `t` what `a'` stores to the same option as a
text, seen from the directory if it is a file name. -/
structure Assignment.Resolves (t : Table) (directory : Option String) (a a' : Assignment) :
    Prop where
  declared : t[a.index]? = some a.entry
  index : a'.index = a.index
  entry : a'.entry = a.entry.asText
  form : a'.form = a.form
  value : a.value = a'.value.map (a.entry.stored directory)

/-- Options of the table `t` are mentioned as texts, refused for the same reasons, and store values
that are not seen from the directory. -/
def Likeness.asText (t : Table) (directory : Option String) : Likeness where
  mention m m' := m' = m.asText ∧ t[m.index]? = some m.entry
  refusal := Eq
  assignment := Assignment.Resolves t directory

namespace Table

theorem longPhrase_asText (t : Table) (directory : Option String) (given : List Char) :
    (Likeness.asText t directory).Words (.options (t.longPhrase given))
      (.options (t.asText.longPhrase given)) := by
  unfold longPhrase resolve
  dsimp only
  rw [lookup_asText]
  cases hfound : t.lookup (splitAttached given).1 with
  | unknown => exact .options .nil (.refused rfl)
  | found hit =>
    have hdeclared : t[hit.index]? = some hit.entry :=
      (mem_hits_iff.1 (mem_hits_of_lookup hfound)).1
    exact .options (.cons ⟨rfl, hdeclared⟩ .nil) .settled
  | ambiguous hits =>
    have hnames : (hits.map Hit.asText).map Hit.name = hits.map Hit.name := by
      rw [List.map_map]
      rfl
    simp only [Lookup.map, hnames]
    exact .options .nil (.refused rfl)

theorem found_asText (t : Table) (directory : Option String) (name : Char) :
    Option.Rel (Likeness.asText t directory).Found (t.findShort? name)
      (t.asText.findShort? name) := by
  rw [findShort?_asText]
  cases hfound : t.findShort? name with
  | none => exact .none
  | some found =>
    have hdeclared : t[found.1]? = some found.2 := (getElem?_of_findShort? hfound).1
    exact .some ⟨found.2.takesValue_asText, fun _ => ⟨rfl, hdeclared⟩⟩

theorem word_asText (t : Table) (directory : Option String) (token : String) :
    (Likeness.asText t directory).Words (t.word token) (t.asText.word token) :=
  word_alike (fun _ => rfl) (t.longPhrase_asText directory) (t.found_asText directory) token

end Table

/-! ## Whole vectors -/

theorem Parser.resembles_asText (p : Parser) :
    p.Resembles p.asText (.asText p.table p.directory) where
  mode := rfl
  word := p.table.word_asText p.directory
  wants := by
    rintro m m' ⟨rfl, -⟩
    exact m.wantsNext_asText.symm
  value := by
    rintro m m' stored ⟨rfl, hdeclared⟩ hvalue
    rw [m.value?_asText] at hvalue
    cases hplain : m.asText.value? p.directory with
    | error f =>
      rw [hplain] at hvalue
      cases hvalue
    | ok value =>
      rw [hplain] at hvalue
      cases hvalue
      exact ⟨value, hplain, hdeclared, rfl, rfl, rfl, rfl⟩
  unfit := by
    rintro m m' f ⟨rfl, -⟩ hvalue
    rw [m.value?_asText] at hvalue
    cases hplain : m.asText.value? p.directory with
    | error f' =>
      rw [hplain] at hvalue
      cases hvalue
      exact ⟨f, hplain, rfl⟩
    | ok value =>
      rw [hplain] at hvalue
      cases hvalue
  next := by
    rintro m m' ⟨rfl, hdeclared⟩ - value
    refine ⟨hdeclared, rfl, rfl, rfl, ?_⟩
    have hplain : m.asText.entry.stored p.asText.directory value = value :=
      m.entry.stored_asText p.directory value
    rw [hplain]
    rfl
  missing := by
    rintro m m' ⟨rfl, -⟩ -
    rfl
  help := rfl

/-- Runs that leave the same vector and end in the same way are told alike by parsers with the same
usage text. -/
theorem Run.parsed_congr {r r' : Run} {p p' : Parser} (husage : p.usage = p'.usage)
    (hargv : r.argv = r'.argv) (hending : r.ending = r'.ending) (slots slots' : Slots)
    (out err : Sink) :
    let parsed := r.parsed p slots out err
    let parsed' := r'.parsed p' slots' out err
    parsed.outcome = parsed'.outcome ∧ parsed.out = parsed'.out ∧ parsed.err = parsed'.err := by
  unfold parsed
  rw [hending, hargv, husage]
  cases r'.ending <;> exact ⟨rfl, rfl, rfl⟩

theorem Run.assignments_parsed (r : Run) (p : Parser) (slots : Slots) (out err : Sink) :
    (r.parsed p slots out err).assignments = r.events.filterMap Event.assignment? := by
  unfold parsed
  split <;> rfl

/-- The assignments of a parse correspond to those of a parse without file names, and nothing else
that it leaves behind depends on them. -/
theorem Parser.parse_asText (p : Parser) (argv : List String) (slots : Slots) (out err : Sink) :
    let parsed := p.parse argv slots out err
    let parsed' := p.asText.parse argv slots out err
    List.Forall₂ (Assignment.Resolves p.table p.directory) parsed.assignments
        parsed'.assignments ∧
      parsed.argv = parsed'.argv ∧ parsed.outcome = parsed'.outcome ∧
      parsed.out = parsed'.out ∧ parsed.err = parsed'.err := by
  intro parsed parsed'
  have hdefect : p.asText.table.defect? = p.table.defect? := p.table.defect?_asText
  cases hvalid : p.table.defect? with
  | some defect =>
    have hparsed := parse_of_defect hvalid argv slots out err
    have hparsed' := parse_of_defect (hdefect.trans hvalid) argv slots out err
    rw [show parsed = _ from hparsed, show parsed' = _ from hparsed']
    exact ⟨.nil, rfl, rfl, rfl, rfl⟩
  | none =>
    have hrun := p.resembles_asText.run argv
    have hending : (p.run (Cursor.start p.mode argv)).ending =
        (p.asText.run (Cursor.start p.asText.mode argv)).ending := by
      rcases hrun.ending with ⟨h, h'⟩ | ⟨c, c', rfl, h, h'⟩
      · exact h.trans h'.symm
      · exact h.trans h'.symm
    have hparsed := parse_eq_parsed hvalid argv slots out err
    have hparsed' := parse_eq_parsed (hdefect.trans hvalid) argv slots out err
    rw [show parsed = _ from hparsed, show parsed' = _ from hparsed']
    refine ⟨?_, ?_, Run.parsed_congr p.usage_asText.symm hrun.argv hending slots slots out err⟩
    · rw [Run.assignments_parsed, Run.assignments_parsed]
      exact hrun.events
    · rw [Run.argv_parsed, Run.argv_parsed]
      exact hrun.argv

/-! ## What the slots hold -/

theorem Assignment.Resolves.content_of_ne_path {t : Table} {directory : Option String}
    {a a' : Assignment} (h : a.Resolves t directory a') (hkind : a.entry.kind ≠ .path) :
    a.content = a'.content := by
  have hvalue : a.value = a'.value := by
    have hstored : a.entry.stored directory = id := funext fun value => if_neg hkind
    rw [h.value, hstored, Option.map_id, id_eq]
  unfold content
  rw [h.entry, h.form, hvalue]
  unfold Entry.asText
  cases hdeclared : a.entry.kind with
  | path => exact absurd hdeclared hkind
  | _ => rfl

theorem Assignment.Resolves.content_of_path {t : Table} {directory : Option String}
    {a a' : Assignment} (h : a.Resolves t directory a') (hkind : a.entry.kind = .path) :
    a'.content = .text a'.value ∧
      a.content = .text (a'.value.map (resolvePath directory)) := by
  constructor
  · unfold content
    rw [h.entry]
    simp [Entry.asText, hkind, Kind.asText]
  · have hstored : a.entry.stored directory = resolvePath directory :=
      funext fun value => if_pos hkind
    unfold content
    rw [hkind, h.value, hstored]

/-- Corresponding assignments go to the same options, and the last ones to a slot correspond. -/
theorem exists_last_resolves {t : Table} {directory : Option String} {as as' : List Assignment}
    (h : List.Forall₂ (Assignment.Resolves t directory) as as') (i : Nat) :
    ((∀ a ∈ as, a.index ≠ i) ∧ ∀ a ∈ as', a.index ≠ i) ∨
      ∃ before a after before' a' after', as = before ++ a :: after ∧
        as' = before' ++ a' :: after' ∧ a.index = i ∧ a.Resolves t directory a' ∧
        (∀ b ∈ after, b.index ≠ i) ∧ ∀ b ∈ after', b.index ≠ i := by
  induction h with
  | nil => exact .inl ⟨by simp, by simp⟩
  | @cons a a' more more' ha hmore ih =>
    rcases ih with ⟨hnone, hnone'⟩ | ⟨before, b, after, before', b', after', rfl, rfl, hlast⟩
    · by_cases hindex : a.index = i
      · exact .inr ⟨[], a, more, [], a', more', rfl, rfl, hindex, ha, hnone, hnone'⟩
      · have hindex' : a'.index ≠ i := fun he => hindex (ha.index ▸ he)
        exact .inl ⟨by simpa using ⟨hindex, hnone⟩, by simpa using ⟨hindex', hnone'⟩⟩
    · exact .inr ⟨a :: before, b, after, a' :: before', b', after', rfl, rfl, hlast⟩

/-- The parse `r` is like `r'`, which has texts in the place of the file names of the table `t`. It
ends alike, leaves the same vector, and writes the same. Slots of other options hold the same. The
slot of a file name has been assigned in neither parse and holds what it held before, or has nothing
or a name in `r'`, and the same as seen from the directory in `r`. -/
structure Parsed.ResolvedFrom (r r' : Parsed) (t : Table) (directory : Option String)
    (before : Slots) : Prop where
  outcome : r.outcome = r'.outcome
  argv : r.argv = r'.argv
  out : r.out = r'.out
  err : r.err = r'.err
  others : ∀ {i : Nat} {e : Entry}, t[i]? = some e → e.kind ≠ .path → r.slots[i]? = r'.slots[i]?
  paths : ∀ {i : Nat} {e : Entry}, t[i]? = some e → e.kind = .path →
    ((∀ a ∈ r.assignments, a.index ≠ i) ∧ (∀ a ∈ r'.assignments, a.index ≠ i) ∧
        r.slots[i]? = before[i]? ∧ r'.slots[i]? = before[i]?) ∨
      ∃ name, r'.slots[i]? = some (.text name) ∧
        r.slots[i]? = some (.text (name.map (resolvePath directory)))

namespace Parser

/-- A slot has been assigned in neither parse, or the last assignments to it correspond. -/
theorem slots_asText (p : Parser) {slots : Slots} (hslots : slots.length = p.table.length)
    (argv : List String) (out err : Sink) {i : Nat} {e : Entry} (hget : p.table[i]? = some e) :
    let parsed := p.parse argv slots out err
    let parsed' := p.asText.parse argv slots out err
    ((∀ a ∈ parsed.assignments, a.index ≠ i) ∧ (∀ a ∈ parsed'.assignments, a.index ≠ i) ∧
        parsed.slots[i]? = slots[i]? ∧ parsed'.slots[i]? = slots[i]?) ∨
      ∃ a a' : Assignment, a.Resolves p.table p.directory a' ∧ a.entry = e ∧
        parsed.slots[i]? = some a.content ∧ parsed'.slots[i]? = some a'.content := by
  intro parsed parsed'
  have hslot : i < slots.length := hslots ▸ (List.getElem?_eq_some_iff.1 hget).1
  have hparsed : parsed.slots = _ := p.slots_parse argv slots out err
  have hparsed' : parsed'.slots = _ := p.asText.slots_parse argv slots out err
  rw [hparsed, hparsed']
  rcases exists_last_resolves (p.parse_asText argv slots out err).1 i with
    ⟨hnone, hnone'⟩ |
      ⟨before, a, after, before', a', after', hsplit, hsplit', rfl, ha, hlast, hlast'⟩
  · exact .inl ⟨hnone, hnone', Slots.getElem?_foldl_apply hnone slots,
      Slots.getElem?_foldl_apply hnone' slots⟩
  · refine .inr ⟨a, a', ha, Option.some.inj (ha.declared.symm.trans hget), ?_, ?_⟩
    · rw [hsplit, Slots.getElem?_foldl_apply_of_last hlast hslot]
    · rw [hsplit', ← ha.index]
      rw [← ha.index] at hlast' hslot
      exact Slots.getElem?_foldl_apply_of_last hlast' hslot

/-- An option with a file name does what one with a text does, and the name is then seen from the
directory, once and by whatever way it was given. Nothing else of a parse depends on the kind. -/
theorem resolved_parse (p : Parser) {slots : Slots} (hslots : slots.length = p.table.length)
    (argv : List String) (out err : Sink) :
    (p.parse argv slots out err).ResolvedFrom (p.asText.parse argv slots out err) p.table
      p.directory slots := by
  obtain ⟨-, hargv, houtcome, hout, herr⟩ := p.parse_asText argv slots out err
  refine ⟨houtcome, hargv, hout, herr, ?_, ?_⟩
  · intro i e hget hkind
    rcases p.slots_asText hslots argv out err hget with
      ⟨-, -, hbefore, hbefore'⟩ | ⟨a, a', ha, rfl, hcontent, hcontent'⟩
    · rw [hbefore, hbefore']
    · rw [hcontent, hcontent', ha.content_of_ne_path hkind]
  · intro i e hget hkind
    rcases p.slots_asText hslots argv out err hget with
      hunassigned | ⟨a, a', ha, rfl, hcontent, hcontent'⟩
    · exact .inl hunassigned
    · obtain ⟨hplain, hresolved⟩ := ha.content_of_path hkind
      exact .inr ⟨a'.value, hplain ▸ hcontent', hresolved ▸ hcontent⟩

/-- A parser with several file names, and other options among them. -/
def archiver : Parser where
  table :=
    [{ kind := .path, long := "input", short := some 'i' },
     { kind := .flag, long := "verbose", short := some 'v' },
     { kind := .path, long := "output", negatable := true },
     { kind := .path, long := "index", optional := true, fallback := some "index.txt" },
     { kind := .text, long := "title" },
     { kind := .path, long := "log", short := some 'l' },
     { kind := .path, long := "config" }]
  directory := some "/home"

/-- Names from the same argument, from the next one and from the fallback are all seen from the
directory, and `-` is not. Neither is the title, nor a name that was there before. -/
theorem resolved_parse_by_all_ways :
    let before : Slots :=
      [.text none, .truth false, .text none, .text none, .text none, .text none, .text (some "old")]
    let argv := ["-vinotes", "--log=-", "--title", "notes", "--index", "--no-output", "--output",
      "draft", "left"]
    let parsed := archiver.parse argv before {} {}
    let parsed' := archiver.asText.parse argv before {} {}
    parsed.slots = [.text (some "/home/notes"), .truth true, .text (some "/home/draft"),
        .text (some "/home/index.txt"), .text (some "notes"), .text (some "-"),
        .text (some "old")] ∧
      parsed'.slots = [.text (some "notes"), .truth true, .text (some "draft"),
        .text (some "index.txt"), .text (some "notes"), .text (some "-"), .text (some "old")] ∧
      parsed.ResolvedFrom parsed' archiver.table (some "/home") before := by
  intro before argv parsed parsed'
  refine ⟨by decide +kernel, by decide +kernel, ?_⟩
  exact archiver.resolved_parse rfl argv {} {}

end Parser

end CommandLine
