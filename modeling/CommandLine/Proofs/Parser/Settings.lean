import CommandLine.Proofs.Parser.GivenValue

/-!
# Settings written down and parsed back

Every configuration can be given on a command line: each setting as one argument, a switch by its
long name and a value behind an equals sign, and two dashes in front of what is no option. Parsing
these arguments sets the options again, whatever characters the values and the other arguments have
(`Parser.parse_settings`).
-/

namespace CommandLine

/-- An option of a table turned on, or set to a value. -/
structure Setting where
  index : Nat
  entry : Entry
  /-- The value, for an option that has one. -/
  value : Option String
deriving DecidableEq, Repr

namespace Setting

/-- The setting as an argument. -/
def argument (s : Setting) : String :=
  match s.value with
  | none => "--" ++ s.entry.long
  | some value => "--" ++ s.entry.long ++ "=" ++ value

/-- The setting can be given by the long name of the option: that finds the option, which is a
switch, or else has a value that may follow an equals sign. A switch is not called `help`. -/
structure Fits (s : Setting) (t : Table) : Prop where
  resolves : t.ResolvesTo s.entry.long.toList s.index s.entry .long
  switch : s.value = none → s.entry.takesValue = false ∧ s.entry.long ≠ "help"
  value : s.value ≠ none → s.entry.takesValue = true ∧ s.entry.bare = false

/-- What the slot of the option then holds: the value of a switch, or the value as it is stored. -/
def content (s : Setting) (directory : Option String) : Value :=
  s.entry.given (s.value.map (s.entry.stored directory))

/-- The assignment that makes the setting. -/
def assignment (s : Setting) (directory : Option String) : Assignment :=
  ⟨s.index, s.entry, .long, s.value.map (s.entry.stored directory)⟩

theorem content_assignment (s : Setting) (directory : Option String) :
    (s.assignment directory).content = s.content directory :=
  Assignment.content_of_ne_negated (a := s.assignment directory) (by simp [assignment])

/-- The settings as arguments, in front of others that are no options. -/
def encode (settings : List Setting) (others : List String) : List String :=
  settings.map argument ++ "--" :: others

end Setting

/-- A parse has made the settings in their order, and left the other arguments and all else as it
was. -/
structure Parsed.Configures (r : Parsed) (settings : List Setting) (others : List String)
    (directory : Option String) (slots : Slots) (out err : Sink) : Prop where
  outcome : r.outcome = .ok others.length
  argv : r.argv = others
  out : r.out = out
  err : r.err = err
  /-- The last setting of an option is the one that counts. -/
  last : ∀ before s after, settings = before ++ s :: after →
    (∀ s' ∈ after, s'.index ≠ s.index) → r.slots[s.index]? = some (s.content directory)
  others : ∀ i : Nat, (∀ s ∈ settings, s.index ≠ i) → r.slots[i]? = slots[i]?

namespace Parser

variable {p : Parser} {s : Setting} {settings : List Setting}

/-! ## One setting -/

/-- A setting that fits is an argument of its own, which makes the setting. -/
theorem handles_setting (hvalid : p.table.defect? = none) (h : s.Fits p.table) :
    (∃ events, p.Handles (.option s.argument none) events) ∧
      Group.assignments p (.option s.argument none) = [s.assignment p.directory] := by
  cases hvalue : s.value with
  | none =>
    obtain ⟨htakes, hhelp⟩ := h.switch hvalue
    have hargument : s.argument = "--" ++ String.ofList s.entry.long.toList := by
      simp [Setting.argument, hvalue]
    have hassignment : s.assignment p.directory = ⟨s.index, s.entry, .long, none⟩ := by
      simp [Setting.assignment, hvalue]
    obtain ⟨log, hword⟩ := word_of_resolvesTo h.resolves fun hsame =>
      hhelp (String.toList_injective hsame)
    rw [hargument, hassignment]
    refine handles_alone hword (by simp [Mention.WantsNext, htakes]) ?_
    simp [Mention.value?, Cursor.assign, htakes, Except.map]
  | some value =>
    obtain ⟨htakes, hbare⟩ := h.value (by simp [hvalue])
    have hargument : s.argument = "--" ++ s.entry.long ++ "=" ++ value := by
      simp [Setting.argument, hvalue]
    have hassignment : s.assignment p.directory =
        ⟨s.index, s.entry, .long, some (s.entry.stored p.directory value)⟩ := by
      simp [Setting.assignment, hvalue]
    -- the name holds no equals sign, so that the argument is divided behind it
    have hequals : '=' ∉ s.entry.long.toList :=
      Table.equals_notMem_long hvalid h.resolves.getElem? h.resolves.isNamed.1
    obtain ⟨r, hfound, hform⟩ := h.resolves.lookup
    obtain ⟨log, hword⟩ := word_of_long_attached hequals hfound value
    rw [hargument, hassignment]
    rw [hform] at hword
    exact handles_alone hword (not_wantsNext_of_attached rfl)
      (value?_of_attached rfl htakes (by simp) (fun _ => hbare) p.directory)

/-! ## All settings -/

/-- The settings as groups of one argument each. -/
def settingGroups (settings : List Setting) : List Group :=
  settings.map fun s => .option s.argument none

theorem tokens_settingGroups (settings : List Setting) :
    (settingGroups settings).flatMap Group.tokens = settings.map Setting.argument := by
  rw [settingGroups, List.flatMap_map]
  exact List.map_eq_flatMap.symm

theorem positionals_settingGroups (settings : List Setting) :
    (settingGroups settings).flatMap Group.positionals = [] := by
  rw [settingGroups, List.flatMap_map]
  exact List.flatMap_eq_nil_iff.2 fun _ _ => rfl

/-- Settings that fit are made one after the other. -/
theorem handlesAll_settings (hvalid : p.table.defect? = none)
    (hfits : ∀ s ∈ settings, s.Fits p.table) :
    ∃ events, p.HandlesAll (settingGroups settings) events ∧
      events.filterMap Event.assignment? = settings.map fun s => s.assignment p.directory := by
  induction settings with
  | nil => exact ⟨[], .nil, rfl⟩
  | cons s more ih =>
    obtain ⟨⟨events, hhandles⟩, hassigns⟩ := handles_setting hvalid (hfits s List.mem_cons_self)
    obtain ⟨later, hmore, hlater⟩ := ih fun s' hs => hfits s' (List.mem_cons_of_mem s hs)
    refine ⟨events ++ later, .cons hhandles hmore, ?_⟩
    rw [List.filterMap_append, hhandles.assignments, hassigns, hlater]
    rfl

/-- Parsing settings that were written down makes one assignment for each, and stops at the two
dashes. -/
theorem exists_parse_encode (hvalid : p.table.defect? = none) (hkeeps : p.mode.keepFirst = false)
    (hfits : ∀ s ∈ settings, s.Fits p.table) (others : List String) (slots : Slots)
    (out err : Sink) :
    ∃ events, p.parse (Setting.encode settings others) slots out err =
      { outcome := .ok others.length, argv := others
        slots := (settings.map fun s => s.assignment p.directory).foldl Assignment.apply slots
        out, err, events } := by
  obtain ⟨events, hhandles, hassigns⟩ := handlesAll_settings hvalid hfits
  have hkept : (Cursor.start p.mode (Setting.encode settings others)).kept = [] := by
    rw [Cursor.kept_start, if_neg (by simp [hkeeps])]
  have hrest : (Cursor.start p.mode (Setting.encode settings others)).rest =
      (settingGroups settings).flatMap Group.tokens ++ "--" :: others := by
    have hwhole := Cursor.kept_append_rest_start p.mode (Setting.encode settings others)
    rw [hkept, List.nil_append] at hwhole
    rw [hwhole, tokens_settingGroups, Setting.encode]
  have hlone : ¬ (Cursor.start p.mode (Setting.encode settings others)).LoneHelp := by
    intro hlone
    have hmem : "--" ∈ ["-h"] := by
      rw [← hlone.2, hrest]
      simp
    simp at hmem
  have hhalts : p.Halts ("--" :: others) [.terminated] (.complete others) :=
    .terminated (Table.word_eq_terminator_iff.2 rfl)
  have hslots : slots.after (events ++ [.terminated]) =
      (settings.map fun s => s.assignment p.directory).foldl Assignment.apply slots := by
    rw [← hassigns]
    exact Slots.after_append slots events [.terminated]
  rw [parse_of_course hvalid hlone hrest hhandles hhalts slots out err, hkept,
    positionals_settingGroups, hslots]
  exact ⟨_, rfl⟩

/-- Settings written down in front of two dashes are parsed back. -/
theorem parse_settings (hvalid : p.table.defect? = none) (hkeeps : p.mode.keepFirst = false)
    (hfits : ∀ s ∈ settings, s.Fits p.table) (others : List String) {slots : Slots}
    (hslots : slots.length = p.table.length) (out err : Sink) :
    (p.parse (Setting.encode settings others) slots out err).Configures settings others p.directory
      slots out err := by
  obtain ⟨events, hparse⟩ := exists_parse_encode hvalid hkeeps hfits others slots out err
  rw [hparse]
  refine ⟨rfl, rfl, rfl, rfl, ?_, ?_⟩
  · rintro before s after rfl hlast
    have hslot : s.index < slots.length := by
      rw [hslots]
      exact (List.getElem?_eq_some_iff.1 (hfits s (by simp)).resolves.getElem?).1
    rw [List.map_append, List.map_cons, ← Setting.content_assignment]
    refine Slots.getElem?_foldl_apply_of_last (a := s.assignment p.directory) ?_ hslot
    intro a ha
    obtain ⟨s', hs, rfl⟩ := List.mem_map.1 ha
    exact hlast s' hs
  · intro i hi
    apply Slots.getElem?_foldl_apply
    intro a ha
    obtain ⟨s, hs, rfl⟩ := List.mem_map.1 ha
    exact hi s hs

/-- A parser that resolves file names. -/
def exporter : Parser where
  table :=
    [{ kind := .switch 2, long := "detail", short := some 'd' },
     { kind := .heading, help := "Output" },
     { kind := .path, long := "output", short := some 'o' },
     { kind := .text, long := "title", negatable := true, optional := true }]
  directory := some "/srv"

/-- The values hold dashes and equals signs, and one is empty. The last title counts. -/
theorem parse_settings_with_dashes :
    let detail : Entry := { kind := .switch 2, long := "detail", short := some 'd' }
    let output : Entry := { kind := .path, long := "output", short := some 'o' }
    let title : Entry := { kind := .text, long := "title", negatable := true, optional := true }
    let settings : List Setting :=
      [⟨3, title, some ""⟩, ⟨2, output, some "--"⟩, ⟨0, detail, none⟩, ⟨3, title, some "=-a=b"⟩]
    let parsed := exporter.parse (Setting.encode settings ["--title=c", "--", "-h"])
      [.number 0, .nothing, .text none, .text none] {} {}
    Setting.encode settings ["--title=c", "--", "-h"] =
        ["--title=", "--output=--", "--detail", "--title==-a=b", "--", "--title=c", "--", "-h"] ∧
      parsed.slots = [.number 2, .nothing, .text (some "/srv/--"), .text (some "=-a=b")] ∧
      parsed.Configures settings ["--title=c", "--", "-h"] (some "/srv")
        [.number 0, .nothing, .text none, .text none] {} {} := by
  intro detail output title settings parsed
  refine ⟨by decide +kernel, by decide +kernel, ?_⟩
  have hfits : ∀ s ∈ settings, s.Fits exporter.table := by
    intro s hs
    simp only [settings, List.mem_cons, List.not_mem_nil, or_false] at hs
    rcases hs with rfl | rfl | rfl | rfl
    all_goals exact ⟨⟨.exact .long, by decide +kernel, rfl⟩, by decide, by decide⟩
  exact parse_settings (p := exporter) (by decide +kernel) rfl hfits _ rfl {} {}

end Parser

end CommandLine
