import CommandLine.Proofs.Parser.GivenValue

/-!
# What holds all along a parse

A parse is looked at wherever it may stand (`Place`): in front of each argument, in front of each
short name within one, where an option has been found and is about to be assigned, and at its end.
`Parser.Reaches` says which cursors it has there. At all of them the cursor still divides the whole
vector, and a value is attached to it only between an option and its assignment
(`Parser.holds_of_reaches`).

## Strategy

An assignment leaves the cursor where it is or takes it to the next argument, with nothing attached
(`Parser.eq_or_eq_advance_of_assigned`). From this a whole argument is handled in
`Parser.step_cases`, and a parse by induction on how it reaches a place.
-/

namespace CommandLine

/-! ## The places of a parse -/

/-- Where a parse may stand. Within an argument, `start` is the cursor that it came to this argument
with. -/
inductive Place where
  /-- In front of an argument, or of none. -/
  | argument
  /-- In front of these short names, which are all or the last of those in `token`. -/
  | names (start : Cursor) (token : String) (names : List Char)
  /-- In front of the assignment of an option that `token` mentions. -/
  | option (start : Cursor) (token : String) (m : Mention)
  /-- Behind the last argument that is looked at, where a later one is not. -/
  | over

/-- The parse of `argv` comes to a place with this cursor. -/
inductive Parser.Reaches (p : Parser) (argv : List String) : Place → Cursor → Prop
  | start : Reaches p argv .argument (Cursor.start p.mode argv)
  | next {c c' token more events} (h : Reaches p argv .argument c) (hrest : c.rest = token :: more)
      (hstep : p.step c token = (events, .next c')) : Reaches p argv .argument c'.advance
  | complete {c c' token more events} (h : Reaches p argv .argument c)
      (hrest : c.rest = token :: more) (hstep : p.step c token = (events, .complete c')) :
      Reaches p argv .over c'
  /-- A long name has been found, and what stood behind an equals sign is attached. -/
  | long {c token more given hit} (h : Reaches p argv .argument c) (hrest : c.rest = token :: more)
      (hlong : IsLong token given) (hfound : (p.table.resolve given).found = .found hit) :
      Reaches p argv
        (.option c token
          ⟨hit.index, hit.entry, hit.reading.form, (p.table.resolve given).attached⟩)
        (c.attach (p.table.resolve given).attached)
  | cluster {c token more names} (h : Reaches p argv .argument c) (hrest : c.rest = token :: more)
      (hcluster : IsCluster token names) (hlone : ¬ (c.isLone = true ∧ names = ['h'])) :
      Reaches p argv (.names c token names) c
  /-- A switch among short names has been assigned. -/
  | switch {start c c' token name packed index e events}
      (h : Reaches p argv (.names start token (name :: packed)) c)
      (hfind : p.table.findShort? name = some (index, e)) (htakes : e.takesValue = false)
      (hassigned : p.assigned c index e .short = (events, .next c')) :
      Reaches p argv (.names start token packed) c'
  /-- The short name of an option with a value has been found, and what it is packed with is
  attached. -/
  | packed {start c token name packed index e attached}
      (h : Reaches p argv (.names start token (name :: packed)) c)
      (hfind : p.table.findShort? name = some (index, e)) (htakes : e.takesValue = true)
      (hattached : attached = if packed.isEmpty then none else some (String.ofList packed)) :
      Reaches p argv (.option start token ⟨index, e, .short, attached⟩) (c.attach attached)

/-! ## What holds at a place -/

/-- The cursor stands somewhere in `argv`, and has not collected more arguments than it has passed.
An argument that is kept counts as both. -/
structure Cursor.Divides (c : Cursor) (argv : List String) : Prop where
  tokens : c.tokens = argv
  position : c.position ≤ argv.length
  collected : (c.kept ++ c.positionals).length ≤ c.position

namespace Parser

/-- The parse of `argv` is what goes on at the cursor `c`, after some earlier events. -/
def GoesOnFrom (p : Parser) (argv : List String) (c : Cursor) : Prop :=
  ∃ earlier, p.run (Cursor.start p.mode argv) = (p.run c).after earlier

/-- The parse of `argv` comes to `token` with the cursor `start`, and handling it is `rest` after
some earlier events. -/
def GoesOnWithin (p : Parser) (argv : List String) (start : Cursor) (token : String)
    (rest : List Event × Step) : Prop :=
  p.GoesOnFrom argv start ∧ (∃ more, start.rest = token :: more) ∧
    ∃ earlier, p.step start token = (earlier ++ rest.1, rest.2)

/-- What holds of the cursor at a place in the parse of `argv`. -/
def Holds (p : Parser) (argv : List String) : Place → Cursor → Prop
  | .argument, c =>
    c.attached = none ∧ p.GoesOnFrom argv c ∧
      ∀ token more events c', c.rest = token :: more → p.step c token = (events, .next c') →
        c.position < c'.advance.position
  | .names start token names, c =>
    c.attached = none ∧ p.GoesOnWithin argv start token (p.cluster token c names)
  | .option start token m, c =>
    (∃ bare : Cursor, bare.attached = none ∧ c = bare.attach m.attached) ∧
      p.GoesOnWithin argv start token (p.assigned c m.index m.entry m.form) ∧
      ∀ value, c.attached = some value →
        (m.entry.takesValue = true ∧ ∃ c', c'.attached = none ∧
          p.assigned c m.index m.entry m.form =
            ([.assigned (m.assignment (some (m.entry.stored p.directory value)))], .next c')) ∨
        ∃ fault, p.assigned c m.index m.entry m.form = ([], .fail fault) ∧
          (p.run (Cursor.start p.mode argv)).ending = .fault fault
  | .over, c => c.attached = none ∧ ∃ earlier,
      p.run (Cursor.start p.mode argv) = c.finish.after earlier

end Parser

/-! ## Moving the cursor -/

namespace Cursor

variable {c c' : Cursor} {argv : List String}

@[simp] theorem attached_advance (c : Cursor) : c.advance.attached = c.attached := by
  unfold advance
  split <;> rfl

theorem position_add_length_rest (c : Cursor) : c.position + c.rest.length = c.tokens.length := by
  simp [position, tokens, Nat.add_assoc]

theorem divides_of_tokens (htokens : c.tokens = argv)
    (hcollected : (c.kept ++ c.positionals).length ≤ c.position) : c.Divides argv := by
  have hlength := c.position_add_length_rest
  rw [htokens] at hlength
  exact ⟨htokens, by omega, hcollected⟩

theorem divides_start (mode : Mode) (argv : List String) : (start mode argv).Divides argv := by
  have hnone : (start mode argv).positionals = (start mode argv).handled := by
    rw [positionals_start, handled_start]
  apply divides_of_tokens (tokens_start mode argv)
  exact Nat.le_of_eq (by rw [hnone, position])

theorem divides_attach_iff {value : Option String} :
    (c.attach value).Divides argv ↔ c.Divides argv :=
  ⟨fun h => ⟨h.tokens, h.position, h.collected⟩, fun h => ⟨h.tokens, h.position, h.collected⟩⟩

theorem Divides.advance (h : c.Divides argv) : c.advance.Divides argv := by
  have hcollected := h.collected
  apply divides_of_tokens (by rw [tokens_advance, h.tokens])
  unfold Cursor.advance
  split
  · exact hcollected
  · simp only [Cursor.position, List.length_append, List.length_singleton] at hcollected ⊢
    omega

/-- An argument that is collected and passed counts as both. -/
theorem Divides.advance_collect (h : c.Divides argv) {token : String} {more : List String}
    (hrest : c.rest = token :: more) : (c.collect token).advance.Divides argv := by
  have hcollected := h.collected
  apply divides_of_tokens (by rw [tokens_advance, tokens_collect, h.tokens])
  simp only [Cursor.advance, collect, hrest, Cursor.position, List.length_append,
    List.length_singleton] at hcollected ⊢
  omega

/-- Onward means further, once the argument under the cursor is passed. -/
theorem Divides.position_lt_advance (h : c.Divides argv) (h' : c'.advance.Divides argv)
    (honward : Onward c c') : c.position < c'.advance.position := by
  have hlength := c.position_add_length_rest
  have hlength' := c'.advance.position_add_length_rest
  have hless := length_rest_advance_lt honward.1
  have hmost := honward.2
  rw [h.tokens] at hlength
  rw [h'.tokens] at hlength'
  omega

end Cursor

/-! ## Assignments -/

/-- An option that is not refused with a value attached is one that takes it. -/
theorem Mention.stored_of_attached {m : Mention} {directory stored : Option String} {value : String}
    (hsound : m.Sound) (hattached : m.attached = some value)
    (h : m.value? directory = .ok stored) :
    m.entry.takesValue = true ∧ stored = some (m.entry.stored directory value) := by
  have htakes : m.form ≠ .negated ∧ m.entry.takesValue = true := by
    unfold Mention.value? Cursor.assign at h
    simp only [hattached, Option.isSome_some, and_true, true_and] at h
    cases hform : m.form with
    | negated =>
      rw [if_pos hform] at h
      cases h
    | short =>
      refine ⟨by simp, ?_⟩
      by_contra hswitch
      have hnone := hsound hform (by simpa using hswitch)
      rw [hattached] at hnone
      cases hnone
    | long =>
      refine ⟨by simp, ?_⟩
      by_contra hswitch
      have hrefuses : m.entry.refusesAttached = true := by
        rw [Entry.refusesAttached, Bool.eq_false_iff.2 hswitch]
        rfl
      simp [hform, hrefuses, Except.map] at h
  have hstored := m.stored_of_value? (Parser.not_wantsNext_of_attached hattached) h none
  rw [Mention.stored, if_pos htakes, hattached] at hstored
  exact ⟨htakes.2, hstored.symm⟩

namespace Parser

variable {p : Parser} {argv : List String} {c c' : Cursor} {m : Mention} {token : String}
  {events : List Event}

/-- An assignment takes what is attached, and leaves the cursor where it is or takes it to the next
argument. -/
theorem eq_or_eq_advance_of_assigned (hc : c.attached = none) (hsound : m.Sound)
    (h : p.assigned (c.attach m.attached) m.index m.entry m.form = (events, .next c')) :
    c' = c ∨ c' = c.advance := by
  by_cases hwants : m.WantsNext
  · rw [assigned_of_wantsNext hc hwants] at h
    cases hfollowing : c.takeFollowing? with
    | none =>
      rw [hfollowing] at h
      cases h
    | some following =>
      rw [hfollowing] at h
      cases h
      exact .inr (Cursor.takeFollowing?_eq_some_iff.1 hfollowing).1
  · rw [assigned_of_not_wantsNext hc hsound hwants] at h
    split at h <;> cases h
    exact .inl rfl

/-- A value that is attached to an option is stored as soon as the option is assigned, or the option
is refused. -/
theorem assigned_of_attached (p : Parser) {value : String} (hc : c.attached = none)
    (hsound : m.Sound) (hattached : m.attached = some value) :
    (m.entry.takesValue = true ∧
      p.assigned (c.attach m.attached) m.index m.entry m.form =
        ([.assigned (m.assignment (some (m.entry.stored p.directory value)))], .next c)) ∨
      ∃ fault, p.assigned (c.attach m.attached) m.index m.entry m.form = ([], .fail fault) := by
  rw [assigned_of_not_wantsNext hc hsound (not_wantsNext_of_attached hattached)]
  cases hvalue : m.value? p.directory with
  | error fault => exact .inr ⟨fault, rfl⟩
  | ok stored =>
    obtain ⟨htakes, rfl⟩ := m.stored_of_attached hsound hattached hvalue
    exact .inl ⟨htakes, rfl⟩

/-! ## One argument -/

theorem divides_of_assigned (hc : c.attached = none) (hdivides : c.Divides argv)
    (hsound : m.Sound)
    (h : p.assigned (c.attach m.attached) m.index m.entry m.form = (events, .next c')) :
    c'.attached = none ∧ c'.Divides argv := by
  rcases eq_or_eq_advance_of_assigned hc hsound h with rfl | rfl
  · exact ⟨hc, hdivides⟩
  · exact ⟨by rw [Cursor.attached_advance, hc], hdivides.advance⟩

theorem perform_cons_cases (p : Parser) (c : Cursor) (m : Mention) (more : List Mention)
    (close : Close) :
    (∃ events c', p.assigned (c.attach m.attached) m.index m.entry m.form = (events, .next c') ∧
        (p.perform c (m :: more) close).2 = (p.perform c' more close).2) ∨
      ∃ fault, (p.perform c (m :: more) close).2 = .fail fault := by
  cases hassign : (c.attach m.attached).assign p.directory m.entry m.form with
  | ok result =>
    have hassigned : p.assigned (c.attach m.attached) m.index m.entry m.form =
        ([.assigned (m.assignment result.1)], .next result.2) := by
      simp only [assigned, hassign, Mention.assignment]
    exact .inl ⟨_, _, hassigned, by rw [perform_cons_of_next hassigned]⟩
  | error fault =>
    have hassigned : p.assigned (c.attach m.attached) m.index m.entry m.form =
        ([], .fail fault) := by
      simp only [assigned, hassign]
    exact .inr ⟨fault, by rw [perform_cons_of_fail hassigned]⟩

/-- Assigning what an argument mentions does not end the parse well, and leaves nothing attached. -/
theorem divides_of_perform (p : Parser) {mentions : List Mention} (close : Close)
    (hc : c.attached = none) (hdivides : c.Divides argv) (hsound : ∀ m ∈ mentions, m.Sound) :
    (∃ c', (p.perform c mentions close).2 = .next c' ∧ c'.attached = none ∧ c'.Divides argv) ∨
      ∃ r : Refusal, (p.perform c mentions close).2 = r.step := by
  induction mentions generalizing c with
  | nil =>
    cases close with
    | settled => exact .inl ⟨c, rfl, hc, hdivides⟩
    | refused r => exact .inr ⟨r, rfl⟩
  | cons m more ih =>
    rcases p.perform_cons_cases c m more close with ⟨events, c', hassigned, hmore⟩ | ⟨fault, hfail⟩
    · obtain ⟨hc', hdivides'⟩ :=
        divides_of_assigned hc hdivides (hsound m List.mem_cons_self) hassigned
      rw [hmore]
      exact ih hc' hdivides' fun m' hm => hsound m' (List.mem_cons_of_mem m hm)
    · exact .inr ⟨.fault fault, hfail⟩

/-- What handling an argument comes to. Nothing stays attached, and once the argument is passed the
cursor divides the vector as before. -/
theorem step_cases (p : Parser) {more : List String} (hc : c.attached = none)
    (hdivides : c.Divides argv) (hrest : c.rest = token :: more) :
    (∃ c', (p.step c token).2 = .next c' ∧ c'.attached = none ∧ c'.advance.Divides argv) ∨
      (∃ c', (p.step c token).2 = .complete c' ∧ c'.attached = none ∧ c'.Divides argv) ∨
      ∃ r : Refusal, (p.step c token).2 = r.step := by
  rw [step_eq hc]
  split
  · exact .inr (.inr ⟨.help, rfl⟩)
  · cases hword : p.table.word token with
    | positional =>
      dsimp only
      split
      · exact .inr (.inl ⟨c, rfl, hc, hdivides⟩)
      · exact .inl ⟨c.collect token, rfl, hc, hdivides.advance_collect hrest⟩
    | terminator =>
      have hc' : c.advance.attached = none := by rw [Cursor.attached_advance, hc]
      exact .inr (.inl ⟨c.advance, rfl, hc', hdivides.advance⟩)
    | options phrase =>
      have hsound := (Table.regular_of_word hword).sound
      rcases p.divides_of_perform phrase.close hc hdivides hsound with
        ⟨c', hnext, hc', hdivides'⟩ | hrefused
      · exact .inl ⟨c', hnext, hc', hdivides'.advance⟩
      · exact .inr (.inr hrefused)

theorem divides_of_next {more : List String} (hc : c.attached = none) (hdivides : c.Divides argv)
    (hrest : c.rest = token :: more) (h : p.step c token = (events, .next c')) :
    c'.attached = none ∧ c'.advance.Divides argv := by
  rcases p.step_cases hc hdivides hrest with
    ⟨c'', hnext, hholds⟩ | ⟨c'', hcomplete, -⟩ | ⟨r, hrefused⟩
  · rw [h] at hnext
    cases hnext
    exact hholds
  · rw [h] at hcomplete
    cases hcomplete
  · rw [h] at hrefused
    cases r <;> cases hrefused

theorem divides_of_complete {more : List String} (hc : c.attached = none)
    (hdivides : c.Divides argv) (hrest : c.rest = token :: more)
    (h : p.step c token = (events, .complete c')) : c'.attached = none ∧ c'.Divides argv := by
  rcases p.step_cases hc hdivides hrest with
    ⟨c'', hnext, -⟩ | ⟨c'', hcomplete, hholds⟩ | ⟨r, hrefused⟩
  · rw [h] at hnext
    cases hnext
  · rw [h] at hcomplete
    cases hcomplete
    exact hholds
  · rw [h] at hrefused
    cases r <;> cases hrefused

/-! ## How a parse goes on -/

/-- The step of a long name that is found is to assign the option. -/
theorem step_of_found {given : List Char} {hit : Hit} (hlong : IsLong token given)
    (hfound : (p.table.resolve given).found = .found hit) (c : Cursor) :
    ∃ log, p.step c token =
      (log ++ (p.assigned (c.attach (p.table.resolve given).attached) hit.index hit.entry
          hit.reading.form).1,
        (p.assigned (c.attach (p.table.resolve given).attached) hit.index hit.entry
          hit.reading.form).2) := by
  obtain ⟨htoken, hne, hhelp⟩ := hlong
  refine ⟨(p.table.resolve given).found.events (String.ofList (p.table.resolve given).text), ?_⟩
  rw [step_of_long htoken, if_neg (by simpa using hne), if_neg hhelp]
  simp only [long, hfound]

theorem step_of_isCluster (p : Parser) {names : List Char} (hcluster : IsCluster token names)
    (hlone : ¬ (c.isLone = true ∧ names = ['h'])) : p.step c token = p.cluster token c names := by
  obtain ⟨htoken, hne, hdash⟩ := hcluster
  obtain ⟨name, packed, rfl⟩ := List.exists_cons_of_ne_nil hne
  rw [step_of_cluster (by simpa using hdash) htoken, if_neg (by simpa [and_assoc] using hlone)]

theorem cluster_of_switch {name : Char} {packed : List Char} {index : Nat} {e : Entry}
    (hfind : p.table.findShort? name = some (index, e)) (htakes : e.takesValue = false)
    (hassigned : p.assigned c index e .short = (events, .next c')) :
    p.cluster token c (name :: packed) =
      (events ++ (p.cluster token c' packed).1, (p.cluster token c' packed).2) := by
  simp [cluster, hfind, htakes, hassigned]

theorem cluster_of_takesValue {name : Char} {packed : List Char} {index : Nat} {e : Entry}
    (hfind : p.table.findShort? name = some (index, e)) (htakes : e.takesValue = true) :
    p.cluster token c (name :: packed) =
      p.assigned (c.attach (if packed.isEmpty then none else some (String.ofList packed))) index e
        .short := by
  simp [cluster, hfind, htakes]

variable {start : Cursor} {rest : List Event × Step}

theorem GoesOnFrom.next {more : List String} (h : p.GoesOnFrom argv c)
    (hrest : c.rest = token :: more) (hstep : p.step c token = (events, .next c')) :
    p.GoesOnFrom argv c'.advance := by
  obtain ⟨earlier, hrun⟩ := h
  refine ⟨earlier ++ events, ?_⟩
  rw [hrun, run_of_rest_cons hrest, hstep]
  simp [Run.after]

theorem GoesOnWithin.behind (h : p.GoesOnWithin argv start token (events ++ rest.1, rest.2)) :
    p.GoesOnWithin argv start token rest := by
  obtain ⟨hfrom, hrest, earlier, hstep⟩ := h
  exact ⟨hfrom, hrest, earlier ++ events, by rw [hstep, List.append_assoc]⟩

/-- A fault within an argument ends the parse. -/
theorem GoesOnWithin.ending {fault : Fault}
    (h : p.GoesOnWithin argv start token (events, .fail fault)) :
    (p.run (Cursor.start p.mode argv)).ending = .fault fault := by
  obtain ⟨⟨earlier, hrun⟩, ⟨more, hrest⟩, before, hstep⟩ := h
  rw [hrun, run_of_rest_cons hrest, hstep]
  rfl

/-- Where an option is about to be assigned, with a value attached or without. -/
theorem holds_option (hc : c.attached = none) (hsound : m.Sound)
    (hwithin : p.GoesOnWithin argv start token
      (p.assigned (c.attach m.attached) m.index m.entry m.form)) :
    p.Holds argv (.option start token m) (c.attach m.attached) := by
  refine ⟨⟨c, hc, rfl⟩, hwithin, fun value hvalue => ?_⟩
  rcases p.assigned_of_attached hc hsound hvalue with ⟨htakes, hassigned⟩ | ⟨fault, hfail⟩
  · exact .inl ⟨htakes, c, hc, hassigned⟩
  · rw [hfail] at hwithin
    exact .inr ⟨fault, hfail, hwithin.ending⟩

theorem holds_argument (hc : c.attached = none) (hdivides : c.Divides argv)
    (hfrom : p.GoesOnFrom argv c) : p.Holds argv .argument c := by
  refine ⟨hc, hfrom, fun token more events c' hrest hstep => ?_⟩
  have honward : Cursor.Onward c c' :=
    onward_of_step (by simp [hrest]) (congrArg Prod.snd hstep)
  exact hdivides.position_lt_advance (divides_of_next hc hdivides hrest hstep).2 honward

/-- Wherever a parse stands, the cursor divides the whole vector and has collected no more arguments
than it has passed. In front of an argument and of a short name nothing is attached to it, and each
argument that the parse goes on behind takes it further. A value that is attached to it, where it
had none, is stored by the assignment that comes next, or that assignment is refused and the parse
ends with it. -/
theorem holds_of_reaches {place : Place} (h : p.Reaches argv place c) :
    c.Divides argv ∧ p.Holds argv place c := by
  induction h with
  | start =>
    have hdivides := Cursor.divides_start p.mode argv
    exact ⟨hdivides, holds_argument (Cursor.attached_start p.mode argv) hdivides ⟨[], rfl⟩⟩
  | next h hrest hstep ih =>
    obtain ⟨hdivides, hc, hfrom, -⟩ := ih
    obtain ⟨hc', hdivides'⟩ := divides_of_next hc hdivides hrest hstep
    rw [← Cursor.attached_advance] at hc'
    exact ⟨hdivides', holds_argument hc' hdivides' (hfrom.next hrest hstep)⟩
  | @complete c c' token more events h hrest hstep ih =>
    obtain ⟨hdivides, hc, ⟨earlier, hrun⟩, -⟩ := ih
    obtain ⟨hc', hdivides'⟩ := divides_of_complete hc hdivides hrest hstep
    refine ⟨hdivides', hc', earlier ++ events, ?_⟩
    rw [hrun, run_of_rest_cons hrest, hstep]
    simp [Run.after]
  | @long c token more given hit h hrest hlong hfound ih =>
    obtain ⟨hdivides, hc, hfrom, -⟩ := ih
    have hsound : Mention.Sound
        ⟨hit.index, hit.entry, hit.reading.form, (p.table.resolve given).attached⟩ := by
      apply (p.table.regular_longPhrase given).sound
      simp [Table.longPhrase, hfound]
    have hwithin : p.GoesOnWithin argv c token _ :=
      ⟨hfrom, ⟨more, hrest⟩, step_of_found hlong hfound c⟩
    exact ⟨Cursor.divides_attach_iff.2 hdivides, holds_option hc hsound hwithin⟩
  | @cluster c token more names h hrest hcluster hlone ih =>
    obtain ⟨hdivides, hc, hfrom, -⟩ := ih
    have hstep := p.step_of_isCluster hcluster hlone
    exact ⟨hdivides, hc, hfrom, ⟨more, hrest⟩, [], by rw [hstep, List.nil_append]⟩
  | @switch start c c' token name packed index e events h hfind htakes hassigned ih =>
    obtain ⟨hdivides, hc, hwithin⟩ := ih
    have hassigned' : p.assigned (c.attach none) index e .short = (events, .next c') := by
      rw [attach_none hc, hassigned]
    obtain ⟨hc', hdivides'⟩ := divides_of_assigned (m := ⟨index, e, .short, none⟩) hc hdivides
      (fun _ _ => rfl) hassigned'
    rw [cluster_of_switch hfind htakes hassigned] at hwithin
    exact ⟨hdivides', hc', hwithin.behind⟩
  | @packed start c token name packed index e attached h hfind htakes hattached ih =>
    obtain ⟨hdivides, hc, hwithin⟩ := ih
    have hsound : Mention.Sound ⟨index, e, .short, attached⟩ := by
      intro _ hswitch
      simp [htakes] at hswitch
    rw [cluster_of_takesValue hfind htakes, ← hattached] at hwithin
    exact ⟨Cursor.divides_attach_iff.2 hdivides, holds_option hc hsound hwithin⟩

/-- Behind a positional argument and a switch a value is packed with its option, and stored by the
next assignment. -/
theorem holds_at_packed_value :
    let argv := ["record", "take", "-vofile"]
    let start : Cursor :=
      { kept := ["record"], handled := ["take"], rest := ["-vofile"], positionals := ["take"] }
    let output : Entry := { kind := .text, long := "output", short := some 'o' }
    let place : Place := .option start "-vofile" ⟨1, output, .short, some "file"⟩
    recorder.Reaches argv place (start.attach (some "file")) ∧
      (start.attach (some "file")).Divides argv ∧
      recorder.Holds argv place (start.attach (some "file")) := by
  intro argv start output place
  let first : Cursor := { kept := ["record"], rest := ["take", "-vofile"] }
  have hfirst : recorder.Reaches argv .argument first := .start
  have hstep : recorder.step first "take" = ([], .next (first.collect "take")) := by
    decide +kernel
  have hstart : recorder.Reaches argv .argument start := hfirst.next rfl hstep
  have hcluster : IsCluster "-vofile" "vofile".toList := ⟨rfl, by decide, by decide⟩
  have hnames : recorder.Reaches argv (.names start "-vofile" "vofile".toList) start :=
    hstart.cluster rfl hcluster (by decide)
  let verbose : Entry := { kind := .flag, long := "verbose", short := some 'v' }
  have hassigned : recorder.assigned start 0 verbose .short =
      ([.assigned ⟨0, verbose, .short, none⟩], .next start) := rfl
  have hpacked : recorder.Reaches argv (.names start "-vofile" "ofile".toList) start :=
    hnames.switch rfl rfl hassigned
  have hreaches : recorder.Reaches argv place (start.attach (some "file")) :=
    hpacked.packed rfl rfl rfl
  exact ⟨hreaches, holds_of_reaches hreaches⟩

end Parser

end CommandLine
