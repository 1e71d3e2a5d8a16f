import CommandLine.Proofs.Parser.Cluster

/-!
# Parses that break off

A parse that does not go well leaves the vector as it was handed in, and breaks off at one of its
arguments. The slots have then been overwritten by the arguments before that one, and by the
switches that it names before what is refused. The option at which the parse breaks off keeps what
was in its slot (`Parser.exists_interruption`).
-/

namespace CommandLine

/-- The assignments of switches by their short names. -/
def Table.switchAssignments (t : Table) (names : List Char) : List Assignment :=
  (t.switchMentions names).map fun m => m.assignment none

/-- The outcome of a parse that is refused. -/
def Refusal.outcome : Refusal → Outcome
  | help => .help
  | fault f => .fatal f

/-- The argument `token`, with `left` behind it, ends a parse for this cause. Before that it names
`switches`, and it is about the options at `concerned`, which it does not set. Only an argument that
stands `alone` may be the `-h` that asks for help where `h` is declared. -/
inductive Parser.BreaksOff (p : Parser) (alone : Prop) :
    (token : String) → (left : List String) → (switches : List Char) → (concerned : List Nat) →
      Refusal → Prop
  | lone (halone : alone) : BreaksOff p alone "-h" [] [] [] .help
  | help {left} : BreaksOff p alone "--help" left [] [] .help
  | unknown {token given left} (hlong : IsLong token given)
      (hfound : (p.table.resolve given).found = .unknown) :
      BreaksOff p alone token left [] [] (.fault (.unknownOption (String.ofList given)))
  | ambiguous {token given left hits} (hlong : IsLong token given)
      (hfound : (p.table.resolve given).found = .ambiguous hits) :
      BreaksOff p alone token left [] (hits.map Hit.index)
        (.fault (.ambiguous (String.ofList given) (hits.map Hit.name)))
  | long {token given left hit f} (hlong : IsLong token given)
      (hfound : (p.table.resolve given).found = .found hit)
      (hassign : Cursor.assign
        { rest := token :: left, attached := (p.table.resolve given).attached } p.directory hit.entry
        hit.reading.form = .error f) :
      BreaksOff p alone token left [] [hit.index] (.fault f)
  | undeclared {token left switches name packed}
      (hcluster : IsCluster token (switches ++ name :: packed))
      (hswitches : ∀ c ∈ switches, p.table.IsSwitchName c)
      (hname : p.table.findShort? name = none) :
      BreaksOff p alone token left switches []
        (if name = 'h' then .help else .fault (Parser.unknownShort token name))
  | missing {token switches name index e} (hcluster : IsCluster token (switches ++ [name]))
      (hswitches : ∀ c ∈ switches, p.table.IsSwitchName c)
      (hname : p.table.findShort? name = some (index, e)) (htakes : e.takesValue = true)
      (hoptional : e.optional = false) :
      BreaksOff p alone token [] switches [index] (.fault (.requiresValue (e.describe .short)))

/-- Where a parse breaks off, and why. -/
structure Interruption where
  /-- What has been handled. -/
  groups : List Group
  /-- The argument that ends the parse. -/
  token : String
  left : List String
  /-- The switches that the argument names before it ends the parse. -/
  switches : List Char
  /-- The options that the argument is about and does not set. -/
  concerned : List Nat
  cause : Refusal
deriving DecidableEq, Repr

namespace Interruption

/-- The interruption of a parse of `argv`. -/
structure Fits (i : Interruption) (p : Parser) (argv : List String) : Prop where
  tokens : (Cursor.start p.mode argv).kept ++ i.groups.flatMap Group.tokens ++ i.token :: i.left =
    argv
  handles : ∀ g ∈ i.groups, ∃ events, p.Handles g events
  breaks : p.BreaksOff (i.groups = []) i.token i.left i.switches i.concerned i.cause

/-- What was assigned until then. -/
def assignments (i : Interruption) (p : Parser) : List Assignment :=
  i.groups.flatMap (Group.assignments p) ++ p.table.switchAssignments i.switches

end Interruption

/-- What a parse leaves behind that has broken off at `i`. -/
structure Parsed.BrokeOff (r : Parsed) (p : Parser) (before : Slots) (i : Interruption) : Prop where
  outcome : r.outcome = i.cause.outcome ∨ r.outcome = .fatal (.io Sink.overflowMessage)
  slots : r.slots = (i.assignments p).foldl Assignment.apply before
  elsewhere : ∀ j, (∀ a ∈ i.assignments p, a.index ≠ j) → r.slots[j]? = before[j]?
  /-- The options that are not set keep what the arguments before have left. -/
  concerned : ∀ j ∈ i.concerned, r.slots[j]? =
    ((i.groups.flatMap (Group.assignments p)).foldl Assignment.apply before)[j]?

/-- A writer without room makes a fault of any outcome, and nothing else does. -/
theorem Sink.settle_eq_or (s : Sink) (text : String) (outcome : Outcome) :
    s.settle text outcome = outcome ∨ s.settle text outcome = .fatal (.io overflowMessage) := by
  unfold settle
  split
  · exact .inl rfl
  · exact .inr rfl

theorem Run.outcome_parsed_of_refused {r : Run} {cause : Refusal} (h : r.ending = cause.ending)
    (p : Parser) (slots : Slots) (out err : Sink) :
    (r.parsed p slots out err).outcome = cause.outcome ∨
      (r.parsed p slots out err).outcome = .fatal (.io Sink.overflowMessage) := by
  cases cause <;> simp only [parsed, h] <;> exact Sink.settle_eq_or _ _ _

/-! ## The switches of a cluster -/

namespace Table

variable {t : Table}

/-- An option with a value is none of the switches before it. -/
theorem index_ne_of_mem_switchAssignments {switches : List Char} {name : Char} {index : Nat}
    {e : Entry} (hswitches : ∀ c ∈ switches, t.IsSwitchName c)
    (hname : t.findShort? name = some (index, e)) (htakes : e.takesValue = true) {a : Assignment}
    (ha : a ∈ t.switchAssignments switches) : a.index ≠ index := by
  rw [switchAssignments, List.mem_map] at ha
  obtain ⟨m, hm, rfl⟩ := ha
  rw [switchMentions, List.mem_filterMap] at hm
  obtain ⟨c, hc, hfound⟩ := hm
  obtain ⟨i, o, hfind, ho⟩ := hswitches c hc
  rw [hfind] at hfound
  cases hfound
  intro hsame
  have hget := (getElem?_of_findShort? hname).1
  have hget' := (getElem?_of_findShort? hfind).1
  rw [← hsame] at hget
  rw [Option.some.inj (hget'.symm.trans hget), htakes] at ho
  cases ho

/-- The switches at the front of a cluster, and what follows them. -/
theorem exists_switches (t : Table) (names : List Char) :
    ∃ switches rest, names = switches ++ rest ∧ (∀ c ∈ switches, t.IsSwitchName c) ∧
      ∀ c, rest.head? = some c → ¬ t.IsSwitchName c := by
  induction names with
  | nil => exact ⟨[], [], rfl, by simp, by simp⟩
  | cons c names ih =>
    by_cases hc : t.IsSwitchName c
    · obtain ⟨switches, rest, rfl, hswitches, hrest⟩ := ih
      exact ⟨c :: switches, rest, rfl, by simpa using ⟨hc, hswitches⟩, hrest⟩
    · exact ⟨[], c :: names, rfl, by simp, by simpa using hc⟩

end Table

namespace Parser

variable {p : Parser} {front more : List Mention} {close : Close} {left : List String}
  {events : List Event} {r : Refusal} {token : String} {alone : Prop}

/-! ## How an argument ends a parse -/

/-- What is refused behind switches is refused for what follows them. -/
theorem Refuses.of_behind_switches (hfront : ∀ m ∈ front, IsPlain m p.directory)
    (h : p.Refuses (front ++ more) close left events r) :
    ∃ later, events = switchEvents front ++ later ∧ p.Refuses more close left later r := by
  induction front generalizing events with
  | nil => exact ⟨events, rfl, h⟩
  | cons m front ih =>
    obtain ⟨hplain, hvalue⟩ := hfront m List.mem_cons_self
    generalize hmentions : m :: front ++ more = mentions at h
    cases h with
    | closed => cases hmentions
    | own hwants hstored hmore =>
      cases hmentions
      cases hstored.symm.trans hvalue
      obtain ⟨later, rfl, hlater⟩ := ih (fun m' hm => hfront m' (List.mem_cons_of_mem m hm)) hmore
      exact ⟨later, rfl, hlater⟩
    | unfit hwants hunfit =>
      cases hmentions
      cases hunfit.symm.trans hvalue
    | missing hwants =>
      rw [← (List.cons.inj hmentions).1] at hwants
      exact absurd hwants hplain

/-- The last option of an argument is refused if it cannot be assigned. -/
theorem assign_of_refuses_singleton {m : Mention} (hsound : m.Sound)
    (h : p.Refuses [m] .settled left events r) (token : String) :
    events = [] ∧ ∃ f, r = .fault f ∧
      Cursor.assign { rest := token :: left, attached := m.attached } p.directory m.entry m.form =
        .error f := by
  cases h with
  | own _ _ hmore => cases hmore
  | unfit hwants hvalue =>
    have hassign := assign_of_not_wantsNext (c := { rest := token :: left }) (p := p) rfl hsound
      hwants
    rw [hvalue] at hassign
    exact ⟨rfl, _, rfl, hassign⟩
  | missing hwants =>
    obtain ⟨htakes, hform, hoptional, hattached⟩ := hwants
    refine ⟨rfl, _, rfl, ?_⟩
    simp [Cursor.assign, Cursor.takeValue, Cursor.takeFollowing?, htakes, hform, hoptional,
      hattached]

/-- A long name ends a parse if it is not found, or if its option cannot be assigned. -/
theorem breaksOff_of_longPhrase {given : List Char} (hlong : IsLong token given)
    (h : p.Refuses (p.table.longPhrase given).mentions (p.table.longPhrase given).close left events
      r) :
    events = [] ∧ ∃ concerned, p.BreaksOff alone token left [] concerned r := by
  have hregular := Table.regular_longPhrase p.table given
  unfold Table.longPhrase at h hregular
  dsimp only at h hregular
  cases hfound : (p.table.resolve given).found with
  | unknown =>
    rw [hfound] at h
    cases h with
    | closed => exact ⟨rfl, _, .unknown hlong hfound⟩
  | ambiguous hits =>
    rw [hfound] at h
    cases h with
    | closed => exact ⟨rfl, _, .ambiguous hlong hfound⟩
  | found hit =>
    rw [hfound] at h hregular
    have hsound := hregular.sound _ List.mem_cons_self
    obtain ⟨hevents, f, rfl, hassign⟩ := assign_of_refuses_singleton hsound h token
    exact ⟨hevents, _, .long hlong hfound hassign⟩

/-- An option in its short form is refused only if the argument is used up and none follows. -/
theorem refuses_short_singleton {index : Nat} {e : Entry} {packed : List Char}
    (htakes : e.takesValue = true)
    (h : p.Refuses
      [⟨index, e, .short, if packed.isEmpty then none else some (String.ofList packed)⟩] .settled left
      events r) :
    events = [] ∧ packed = [] ∧ left = [] ∧ e.optional = false ∧
      r = .fault (.requiresValue (e.describe .short)) := by
  cases h with
  | own _ _ hmore => cases hmore
  | unfit hwants hvalue =>
    -- with a value attached or a fallback there is nothing to refuse
    cases packed with
    | nil =>
      have hoptional : e.optional = true := by
        by_contra hno
        exact hwants ⟨htakes, by simp, by simpa using hno, rfl⟩
      simp [Mention.value?, Cursor.assign, Cursor.takeValue, htakes, hoptional, Except.map]
        at hvalue
    | cons c packed =>
      simp [Mention.value?, Cursor.assign, Cursor.takeValue, htakes, Except.map] at hvalue
  | missing hwants =>
    obtain ⟨-, -, hoptional, hattached⟩ := hwants
    have hempty : packed = [] := by simpa using hattached
    exact ⟨rfl, hempty, rfl, hoptional, rfl⟩

/-- A cluster ends a parse at the first name that is no switch: it is not declared, or its value is
missing. -/
theorem breaksOff_of_clusterPhrase {names : List Char} (hcluster : IsCluster token names)
    (h : p.Refuses (p.table.clusterPhrase token names).mentions
      (p.table.clusterPhrase token names).close left events r) :
    ∃ switches concerned, p.BreaksOff alone token left switches concerned r ∧
      events = switchEvents (p.table.switchMentions switches) := by
  obtain ⟨switches, rest, rfl, hswitches, hrest⟩ := p.table.exists_switches names
  rw [Table.clusterPhrase_append hswitches] at h
  obtain ⟨later, rfl, hlater⟩ := h.of_behind_switches
    fun m hm => isPlain_of_mem_switchMentions hswitches hm
  cases rest with
  | nil => cases hlater
  | cons name packed =>
    unfold Table.clusterPhrase at hlater
    cases hname : p.table.findShort? name with
    | none =>
      rw [hname] at hlater
      cases hlater with
      | closed =>
        exact ⟨switches, _, .undeclared hcluster hswitches hname, List.append_nil _⟩
    | some found =>
      obtain ⟨index, e⟩ := found
      have htakes : e.takesValue = true := by
        by_contra hno
        exact hrest name rfl ⟨index, e, hname, by simpa using hno⟩
      rw [hname] at hlater
      simp only [htakes, if_true] at hlater
      obtain ⟨rfl, rfl, rfl, hoptional, rfl⟩ := refuses_short_singleton htakes hlater
      exact ⟨switches, _, .missing hcluster hswitches hname htakes hoptional, List.append_nil _⟩

/-- Whatever ends a parse that does not go well is one of these. -/
theorem Halts.breaksOff {rest : List String} (h : p.Halts rest events (.refused r))
    (alone : Prop) :
    ∃ token left switches concerned, rest = token :: left ∧
      p.BreaksOff alone token left switches concerned r ∧
      events.filterMap Event.assignment? = p.table.switchAssignments switches := by
  cases h with
  | @refused token left phrase events r hword hrefuses =>
    have hlog := Table.assignments_log hword
    rcases Table.options_cases hword with ⟨rfl, rfl⟩ | ⟨given, hlong, rfl⟩ | ⟨names, hcluster, rfl⟩
    · cases hrefuses with
      | closed => exact ⟨"--help", left, [], [], rfl, .help, rfl⟩
    · obtain ⟨rfl, concerned, hbreaks⟩ := breaksOff_of_longPhrase hlong hrefuses
      refine ⟨token, left, [], concerned, rfl, hbreaks, ?_⟩
      rw [List.append_nil, hlog]
      rfl
    · obtain ⟨switches, concerned, hbreaks, rfl⟩ := breaksOff_of_clusterPhrase hcluster hrefuses
      refine ⟨token, left, switches, concerned, rfl, hbreaks, ?_⟩
      rw [List.filterMap_append, hlog, List.nil_append, switchEvents, List.filterMap_map,
        Table.switchAssignments, ← List.filterMap_eq_map]
      rfl

/-! ## Where a parse breaks off -/

/-- None of the switches that are set is an option at which the parse breaks off. -/
theorem BreaksOff.index_ne {switches : List Char} {concerned : List Nat}
    (h : p.BreaksOff alone token left switches concerned r) :
    ∀ j ∈ concerned, ∀ a ∈ p.table.switchAssignments switches, a.index ≠ j := by
  intro j hj a ha
  cases h with
  | missing hcluster hswitches hname htakes hoptional =>
    rw [List.mem_singleton.1 hj]
    exact Table.index_ne_of_mem_switchAssignments hswitches hname htakes ha
  | undeclared => cases hj
  | _ => cases ha

/-- What is handled and what is not make up the vector, behind the argument that is kept. -/
theorem kept_append_course {argv : List String} (groups : List Group) {rest : List String}
    (hrest : (Cursor.start p.mode argv).rest = groups.flatMap Group.tokens ++ rest) :
    (Cursor.start p.mode argv).kept ++ groups.flatMap Group.tokens ++ rest = argv := by
  rw [List.append_assoc, ← hrest, Cursor.kept_append_rest_start]

/-- A run that is not completed breaks off at one of its arguments, and gives its vector back. -/
theorem exists_fits (argv : List String)
    (hbroken : (p.run (Cursor.start p.mode argv)).ending ≠ .complete) :
    ∃ i : Interruption, i.Fits p argv ∧
      (p.run (Cursor.start p.mode argv)).argv = argv ∧
      (p.run (Cursor.start p.mode argv)).ending = i.cause.ending ∧
      (p.run (Cursor.start p.mode argv)).events.filterMap Event.assignment? = i.assignments p := by
  by_cases hlone : (Cursor.start p.mode argv).LoneHelp
  · have htokens := kept_append_course [] hlone.2
    rw [run_of_loneHelp hlone]
    exact ⟨⟨[], "-h", [], [], [], .help⟩, ⟨htokens, by simp, .lone rfl⟩,
      Cursor.tokens_start p.mode argv, rfl, rfl⟩
  · obtain ⟨groups, events, rest, ends, halt, hrest, hall, hhalts⟩ :=
      p.exists_course (Cursor.start p.mode argv).rest
    have htokens := kept_append_course groups hrest
    rw [run_of_course (Cursor.attached_start _ _) hlone hrest hall hhalts] at hbroken ⊢
    cases halt with
    | complete residual => exact absurd rfl hbroken
    | refused r =>
      obtain ⟨token, left, switches, concerned, rfl, hbreaks, hends⟩ :=
        hhalts.breaksOff (groups = [])
      refine ⟨⟨groups, token, left, switches, concerned, r⟩, ⟨htokens, hall.handles, hbreaks⟩,
        ?_, rfl, ?_⟩
      · simpa [Halt.run, Cursor.tokens, Cursor.pass, Cursor.handled_start] using htokens
      · simp only [Halt.run, List.filterMap_append, hall.assignments, hends,
          Interruption.assignments]

/-- A parse that does not go well leaves the vector as it is, whatever the writers have room for.
With a defective table it leaves the slots too. Otherwise it broke off at one of the arguments:
the slots are overwritten by what the arguments before assign, and by the switches that this one
names before it ends the parse, and by nothing else. -/
theorem exists_interruption {argv : List String} {slots : Slots} {out err : Sink}
    (h : ∀ n, (p.parse argv slots out err).outcome ≠ .ok n) :
    (p.parse argv slots out err).argv = argv ∧
      (p.table.defect? ≠ none → (p.parse argv slots out err).slots = slots) ∧
      (p.table.defect? = none → ∃ i : Interruption, i.Fits p argv ∧
        (p.parse argv slots out err).BrokeOff p slots i) := by
  cases hdefect : p.table.defect? with
  | some defect =>
    rw [parse_of_defect hdefect]
    exact ⟨rfl, fun _ => rfl, by simp⟩
  | none =>
    rw [parse_eq_parsed hdefect] at h ⊢
    have hbroken : (p.run (Cursor.start p.mode argv)).ending ≠ .complete :=
      fun hcomplete => h _ (Run.outcome_parsed_of_complete hcomplete p slots out err)
    obtain ⟨i, hfits, hargv, hending, hassigned⟩ := exists_fits argv hbroken
    have hslots : ((p.run (Cursor.start p.mode argv)).parsed p slots out err).slots =
        (i.assignments p).foldl Assignment.apply slots := by
      rw [Run.slots_parsed, Slots.after, hassigned]
    have hframe {assignments : List Assignment} {j : Nat} (hj : ∀ a ∈ assignments, a.index ≠ j) :=
      Slots.getElem?_foldl_apply hj
    refine ⟨by rw [Run.argv_parsed, hargv], by simp, fun _ => ⟨i, hfits, ?_, hslots, ?_, ?_⟩⟩
    · exact Run.outcome_parsed_of_refused hending p slots out err
    · intro j hj
      rw [hslots, hframe hj]
    · intro j hj
      rw [hslots, Interruption.assignments, List.foldl_append,
        hframe (hfits.breaks.index_ne j hj)]

/-- A value is missing at the end of a cluster: the switch before it is set, and the option keeps
the value that it was given earlier. There is not even room to say why. -/
theorem exists_interruption_in_cluster :
    let parsed := recorder.parse ["record", "-ofile", "-vo"] [.truth false, .text none] {}
      { limit := some 5 }
    parsed.outcome = .fatal (.io Sink.overflowMessage) ∧
      parsed.slots = [.truth true, .text (some "file")] ∧
      parsed.argv = ["record", "-ofile", "-vo"] ∧
      ∃ i : Interruption, i.Fits recorder ["record", "-ofile", "-vo"] ∧
        parsed.BrokeOff recorder [.truth false, .text none] i := by
  intro parsed
  have houtcome : parsed.outcome = .fatal (.io Sink.overflowMessage) := by decide +kernel
  have hbroken : ∀ n, parsed.outcome ≠ .ok n := by
    intro n
    rw [houtcome]
    simp
  obtain ⟨hargv, -, hinterruption⟩ := exists_interruption hbroken
  exact ⟨houtcome, by decide +kernel, hargv, hinterruption (by decide +kernel)⟩

end Parser

end CommandLine
