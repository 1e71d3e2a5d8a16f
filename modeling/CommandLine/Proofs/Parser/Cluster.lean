import CommandLine.Proofs.Lookup.ShortName
import CommandLine.Proofs.Parser.Exchange

/-!
# Clusters of switches

Short names in one argument mean what they mean in arguments of their own: switches at the front of
a cluster may be split off from what follows them (`Parser.agrees_split_cluster`). Only an unknown
name outside ASCII shows the difference, since it is reported with the argument around it.
-/

namespace CommandLine

namespace Table

variable {t : Table} {names packed : List Char} {token token' : String} {m : Mention}

/-! ## Switches at the front of a cluster -/

/-- The short name `c` finds a switch. -/
def IsSwitchName (t : Table) (c : Char) : Prop :=
  ∃ i e, t.findShort? c = some (i, e) ∧ e.takesValue = false

/-- The mentions of switches by their short names. -/
def switchMentions (t : Table) (names : List Char) : List Mention :=
  names.filterMap fun c => (t.findShort? c).map fun (i, e) => ⟨i, e, .short, none⟩

theorem isSwitchName_of_mem {c : Char} {e : Entry} (hvalid : t.defect? = none) (he : e ∈ t)
    (hswitch : e.IsSwitch) (hshort : e.short = some c) : t.IsSwitchName c := by
  obtain ⟨i, hget⟩ := List.mem_iff_getElem?.1 he
  exact ⟨i, e, (findShort?_eq_some_iff hvalid).2 ⟨hget, hswitch.1, hshort⟩, hswitch.2⟩

theorem switch_of_mem_switchMentions (hnames : ∀ c ∈ names, t.IsSwitchName c)
    (hm : m ∈ t.switchMentions names) :
    m.entry.takesValue = false ∧ m.form = .short ∧ m.attached = none := by
  rw [switchMentions, List.mem_filterMap] at hm
  obtain ⟨c, hc, hfound⟩ := hm
  obtain ⟨i, e, hfind, htakes⟩ := hnames c hc
  rw [hfind] at hfound
  cases hfound
  exact ⟨htakes, rfl, rfl⟩

/-- Switches at the front of a cluster are mentioned before what follows them. -/
theorem clusterPhrase_append (hnames : ∀ c ∈ names, t.IsSwitchName c) (token : String)
    (packed : List Char) :
    t.clusterPhrase token (names ++ packed) =
      { t.clusterPhrase token packed with
        mentions := t.switchMentions names ++ (t.clusterPhrase token packed).mentions } := by
  induction names with
  | nil => rfl
  | cons c names ih =>
    obtain ⟨i, e, hfind, htakes⟩ := hnames c List.mem_cons_self
    have hmore := ih fun c' hc => hnames c' (List.mem_cons_of_mem c hc)
    have hmentions : t.switchMentions (c :: names) =
        ⟨i, e, .short, none⟩ :: t.switchMentions names := by
      simp [switchMentions, hfind]
    rw [List.cons_append, clusterPhrase, hfind, hmentions]
    simp only [htakes, Bool.false_eq_true, if_false, hmore]
    rfl

/-! ## The argument that is quoted -/

/-- What is said of two arguments differs at most in the argument that it quotes. -/
def EqualButQuote (token token' : String) (a b : Refusal) : Prop :=
  a = b ∨ a = .fault (.unknownNonAscii token) ∧ b = .fault (.unknownNonAscii token')

theorem EqualButQuote.symm {a b : Refusal} (h : EqualButQuote token token' a b) :
    EqualButQuote token' token b a := by
  rcases h with rfl | ⟨rfl, rfl⟩
  · exact .inl rfl
  · exact .inr ⟨rfl, rfl⟩

/-- A cluster in two arguments mentions the same, and is refused in the same way. -/
theorem clusterPhrase_token (t : Table) (token token' : String) (names : List Char) :
    (t.clusterPhrase token names).mentions = (t.clusterPhrase token' names).mentions ∧
      ((t.clusterPhrase token names).close = .settled ∧
          (t.clusterPhrase token' names).close = .settled ∨
        ∃ a b, EqualButQuote token token' a b ∧
          (t.clusterPhrase token names).close = .refused a ∧
          (t.clusterPhrase token' names).close = .refused b) := by
  induction names with
  | nil => exact ⟨rfl, .inl ⟨rfl, rfl⟩⟩
  | cons c names ih =>
    unfold clusterPhrase
    cases t.findShort? c with
    | none =>
      refine ⟨rfl, .inr ⟨_, _, ?_, rfl, rfl⟩⟩
      by_cases hhelp : c = 'h'
      · exact .inl (by rw [if_pos hhelp, if_pos hhelp])
      · rw [if_neg hhelp, if_neg hhelp]
        by_cases hascii : c.toNat < 128
        · exact .inl (by simp [Parser.unknownShort, hascii])
        · exact .inr (by simp [Parser.unknownShort, hascii])
    | some found =>
      dsimp only
      by_cases htakes : found.2.takesValue = true
      · rw [if_pos htakes, if_pos htakes]
        exact ⟨rfl, .inl ⟨rfl, rfl⟩⟩
      · rw [if_neg htakes, if_neg htakes]
        exact ⟨congrArg (_ :: ·) ih.1, ih.2⟩

end Table

/-- The parse fails with `f`, and says so as far as there is room for it. -/
structure Parsed.FailsWith (r : Parsed) (p : Parser) (err : Sink) (f : Fault) : Prop where
  outcome : r.outcome = err.settle (f.report ++ p.usage) (.fatal f)
  err : r.err = err.write (f.report ++ p.usage)

/-- Two parses come to the same, unless they fail at an unknown name outside ASCII. Then each says
in which argument the name stands. -/
def Parsed.AgreesButQuote (one other : Parsed) (p : Parser) (err : Sink) (token token' : String) :
    Prop :=
  one.Agrees other ∨
    (one.slots = other.slots ∧ one.out = other.out ∧
      one.FailsWith p err (.unknownNonAscii token) ∧
      other.FailsWith p err (.unknownNonAscii token'))

/-- Two refusals that differ at most in the argument quoted come to the same but for that. -/
theorem Halt.agreesButQuote {token token' : String} {r r' : Refusal}
    (hequal : Table.EqualButQuote token token' r r') {c d : Cursor} {events events' : List Event}
    {slots : Slots} (hslots : slots.after events = slots.after events') (p : Parser)
    (out err : Sink) :
    (((refused r).run c events).parsed p slots out err).AgreesButQuote
      (((refused r').run d events').parsed p slots out err) p err token token' := by
  rcases hequal with rfl | ⟨rfl, rfl⟩
  · exact .inl (agrees_refused r hslots p out err)
  · exact .inr ⟨hslots, rfl, ⟨rfl, rfl⟩, ⟨rfl, rfl⟩⟩

namespace Parser

variable {p : Parser} {front more : List Mention} {events : List Event}

/-! ## Switches never end a parse -/

/-- The events of switches that are mentioned by their short names. -/
def switchEvents (front : List Mention) : List Event :=
  front.map fun m => .assigned (m.assignment none)

/-- The option is assigned without a value, whatever arguments there are. -/
def IsPlain (m : Mention) (directory : Option String) : Prop :=
  ¬ m.WantsNext ∧ m.value? directory = .ok none

theorem isPlain_of_mem_switchMentions {names : List Char} {m : Mention}
    (hnames : ∀ c ∈ names, p.table.IsSwitchName c) (hm : m ∈ p.table.switchMentions names) :
    IsPlain m p.directory := by
  obtain ⟨htakes, hform, -⟩ := Table.switch_of_mem_switchMentions hnames hm
  constructor
  · intro hwants
    exact absurd hwants.1 (by simp [htakes])
  · simp [Mention.value?, Cursor.assign, htakes, hform, Except.map]

theorem Settles.behind_switches {following : Option String}
    (hfront : ∀ m ∈ front, IsPlain m p.directory)
    (h : p.Settles more following events) :
    p.Settles (front ++ more) following (switchEvents front ++ events) := by
  induction front with
  | nil => exact h
  | cons m front ih =>
    obtain ⟨hwants, hvalue⟩ := hfront m List.mem_cons_self
    exact .own hwants hvalue (ih fun m' hm => hfront m' (List.mem_cons_of_mem m hm))

theorem Refuses.behind_switches {close : Close} {following : List String} {r : Refusal}
    (hfront : ∀ m ∈ front, IsPlain m p.directory)
    (h : p.Refuses more close following events r) :
    p.Refuses (front ++ more) close following (switchEvents front ++ events) r := by
  induction front with
  | nil => exact h
  | cons m front ih =>
    obtain ⟨hwants, hvalue⟩ := hfront m List.mem_cons_self
    exact .own hwants hvalue (ih fun m' hm => hfront m' (List.mem_cons_of_mem m hm))

/-- In another argument the same mentions are refused in the same way. -/
theorem Refuses.requote {mentions : List Mention} {close close' : Close} {following : List String}
    {r : Refusal} {token token' : String} (h : p.Refuses mentions close following events r)
    (hclose : close = .settled ∧ close' = .settled ∨
      ∃ a b, Table.EqualButQuote token token' a b ∧ close = .refused a ∧ close' = .refused b) :
    ∃ r', Table.EqualButQuote token token' r r' ∧
      p.Refuses mentions close' following events r' := by
  induction h with
  | closed =>
    rcases hclose with ⟨hsettled, -⟩ | ⟨a, b, hequal, hrefused, rfl⟩
    · cases hsettled
    · cases hrefused
      exact ⟨b, hequal, .closed⟩
  | own hwants hvalue hmore ih =>
    obtain ⟨r', hequal, hrefuses⟩ := ih hclose
    exact ⟨r', hequal, .own hwants hvalue hrefuses⟩
  | unfit hwants hvalue => exact ⟨_, .inl rfl, .unfit hwants hvalue⟩
  | missing hwants => exact ⟨_, .inl rfl, .missing hwants⟩

/-! ## A cluster in two arguments -/

/-- A group that starts with an argument with options is that argument, with what it takes. -/
theorem Handles.exists_following {g : Group} {token : String} {second left : List String}
    {phrase : Phrase} (h : p.Handles g events) (hsplit : token :: second = g.tokens ++ left)
    (hword : p.table.word token = .options phrase) :
    ∃ following, g = .option token following ∧ second = following.toList ++ left := by
  cases h with
  | positional _ hpositional =>
    obtain ⟨rfl, -⟩ := List.cons.inj hsplit
    rw [hword] at hpositional
    cases hpositional
  | option _ _ _ =>
    obtain ⟨rfl, hsecond⟩ := List.cons.inj hsplit
    exact ⟨_, rfl, hsecond⟩

/-- Two clusters in one argument are no call for help. -/
theorem cluster_ne_help {names packed : List Char} {whole own rest : String}
    (hown : IsCluster own names) (hrest : IsCluster rest packed)
    (hwhole : whole.toList = '-' :: (names ++ packed)) (second : List String) :
    whole :: second ≠ ["-h"] := by
  intro hsame
  have hlength := congrArg (fun token => token.toList.length) (List.cons.inj hsame).1
  have hpos := List.length_pos_iff.2 hown.2.1
  have hpos' := List.length_pos_iff.2 hrest.2.1
  have htwo : "-h".toList.length = 2 := rfl
  simp only [hwhole, htwo, List.length_cons, List.length_append] at hlength
  omega

section

variable {names packed : List Char} {whole own rest : String}
  (hnames : ∀ c ∈ names, p.table.IsSwitchName c) (hown : IsCluster own names)

include hnames hown

/-- Switches in an argument of their own are handled. -/
theorem handles_switches :
    p.Handles (.option own none) (switchEvents (p.table.switchMentions names)) := by
  have hphrase := Table.clusterPhrase_append hnames own []
  rw [List.append_nil] at hphrase
  have hword := Table.word_of_isCluster (t := p.table) hown
  have hnothing : p.Settles [] none [] := .nil
  have hsettles := hnothing.behind_switches
    (fun m hm => isPlain_of_mem_switchMentions hnames hm)
  rw [hphrase] at hword
  have hhandles := Handles.option hword rfl hsettles
  simpa [Table.clusterPhrase] using hhandles

/-- A cluster that starts with switches mentions these, and then what the rest of it mentions. -/
theorem word_behind_switches (hwhole : whole.toList = '-' :: (names ++ packed)) :
    p.table.word whole = .options
      { p.table.clusterPhrase whole packed with
        mentions :=
          p.table.switchMentions names ++ (p.table.clusterPhrase whole packed).mentions } := by
  obtain ⟨-, hne, hdash⟩ := hown
  have hcluster : IsCluster whole (names ++ packed) :=
    ⟨hwhole, by simp [hne], by rwa [List.head?_append_of_ne_nil _ hne]⟩
  rw [Table.word_of_isCluster hcluster, Table.clusterPhrase_append hnames]

variable (hrest : IsCluster rest packed) (hwhole : whole.toList = '-' :: (names ++ packed))

include hrest hwhole

/-- What follows switches in a cluster is handled as it is alone, with the switches before it. -/
theorem handles_behind_switches {following : Option String} {events : List Event}
    (h : p.Handles (.option rest following) events) :
    p.Handles (.option whole following)
      (switchEvents (p.table.switchMentions names) ++ events) := by
  obtain ⟨hmentions, hclose⟩ := Table.clusterPhrase_token p.table whole rest packed
  cases h with
  | option hword hclose' hsettles =>
    rw [Table.word_of_isCluster hrest] at hword
    cases hword
    -- the argument that is quoted shows only in a refusal
    have hsettled : (p.table.clusterPhrase whole packed).close = .settled := by
      rcases hclose with ⟨hsettled, -⟩ | ⟨a, b, -, -, hrefused⟩
      · exact hsettled
      · rw [hrefused] at hclose'
        cases hclose'
    rw [← hmentions] at hsettles
    have hall := hsettles.behind_switches
      (fun m hm => isPlain_of_mem_switchMentions hnames hm)
    have hhandles := Handles.option (word_behind_switches hnames hown hwhole) hsettled hall
    simpa [log_clusterPhrase] using hhandles

/-- What follows switches in a cluster ends a parse as it does alone, with the switches before
it. -/
theorem halts_behind_switches {left : List String} {ends : List Event} {halt : Halt}
    (h : p.Halts (rest :: left) ends halt) :
    ∃ r r', Table.EqualButQuote rest whole r r' ∧ halt = .refused r ∧
      p.Halts (whole :: left) (switchEvents (p.table.switchMentions names) ++ ends)
        (.refused r') := by
  have hword := Table.word_of_isCluster (t := p.table) hrest
  obtain ⟨hmentions, hclose⟩ := Table.clusterPhrase_token p.table rest whole packed
  cases h with
  | terminated hterminator =>
    rw [hword] at hterminator
    cases hterminator
  | stopped _ hpositional =>
    rw [hword] at hpositional
    cases hpositional
  | @refused _ _ phrase events r hphrase hrefuses =>
    rw [hword] at hphrase
    cases hphrase
    obtain ⟨r', hequal, hrefuses'⟩ := hrefuses.requote hclose
    rw [hmentions] at hrefuses'
    have hall := hrefuses'.behind_switches
      (fun m hm => isPlain_of_mem_switchMentions hnames hm)
    refine ⟨r, r', hequal, rfl, ?_⟩
    have hhalts := Halts.refused (word_behind_switches hnames hown hwhole) hall
    simpa [log_clusterPhrase] using hhalts

variable {first second : List String} {groups : List Group} (hpasses : p.Passes first groups events)
  (hkeeps : p.mode.keepFirst = true → first ≠ [])

include hpasses hkeeps

/-- If what follows the switches is handled, then so is the cluster. -/
theorem agrees_of_handles {following : Option String} {later : List Event} {left : List String}
    (hsecond : second = following.toList ++ left) (h : p.Handles (.option rest following) later)
    (slots : Slots) (out err : Sink) :
    (p.parse (first ++ whole :: second) slots out err).Agrees
      (p.parse (first ++ own :: rest :: second) slots out err) := by
  have hswitches := handles_switches hnames hown
  have hcluster := handles_behind_switches hnames hown hrest hwhole h
  have hone : p.HandlesAll [.option whole following] _ := .cons hcluster .nil
  have htwo : p.HandlesAll [.option own none, .option rest following] _ :=
    .cons hswitches (.cons h .nil)
  have hlone := cluster_ne_help hown hrest hwhole second
  have hlone₁ : [Group.option whole following].flatMap Group.tokens ++ left ≠ ["-h"] := by
    simpa [Group.tokens, hsecond] using hlone
  have hagrees := hpasses.agrees hkeeps hone htwo rfl (fun slots => by simp) hlone₁
    (by simp [Group.tokens]) slots out err
  simpa [Group.tokens, hsecond] using hagrees

/-- If what follows the switches ends the parse, then so does the cluster. -/
theorem agreesButQuote_of_halts {ends : List Event} {halt : Halt}
    (h : p.Halts (rest :: second) ends halt) (slots : Slots) (out err : Sink) :
    (p.parse (first ++ whole :: second) slots out err).AgreesButQuote
      (p.parse (first ++ own :: rest :: second) slots out err) p err whole rest := by
  obtain ⟨r, r', hequal, rfl, hwholeHalts⟩ :=
    halts_behind_switches hnames hown hrest hwhole h
  have hswitches : p.HandlesAll [.option own none]
      (switchEvents (p.table.switchMentions names) ++ []) :=
    .cons (handles_switches hnames hown) .nil
  have hlone := cluster_ne_help hown hrest hwhole second
  have hone := hpasses.parse_behind hkeeps hlone rfl .nil hwholeHalts slots out err
  have hlone₂ : own :: rest :: second ≠ ["-h"] := by simp
  have htwo := hpasses.parse_behind hkeeps hlone₂ rfl hswitches h slots out err
  have hslots : slots.after (events ++ [] ++
        (switchEvents (p.table.switchMentions names) ++ ends)) =
      slots.after (events ++ (switchEvents (p.table.switchMentions names) ++ []) ++ ends) := by
    simp only [List.append_nil, List.append_assoc]
  rw [hone, htwo]
  exact Halt.agreesButQuote hequal.symm hslots p out err

end

/-- Switches at the front of a cluster may be split off from what follows them. The parse comes to
the same, unless it fails at an unknown name outside ASCII: then it fails in both cases, and quotes
the argument in which the name stands. -/
theorem agrees_split_cluster {first : List String} {slots : Slots} {out err : Sink} {n : Nat}
    (hkeeps : p.mode.keepFirst = true → first ≠ [])
    (hok : (p.parse first slots out err).outcome = .ok n)
    (hall : (p.parse first slots out err).HandledAll) {s r : String} (hs : s ≠ "")
    (hswitches : ∀ c ∈ s.toList, ∃ e ∈ p.table, e.IsSwitch ∧ e.short = some c) (hr : r ≠ "")
    (hdash : r.toList.head? ≠ some '-') (second : List String) :
    (p.parse (first ++ ["-" ++ s ++ r] ++ second) slots out err).AgreesButQuote
      (p.parse (first ++ ["-" ++ s, "-" ++ r] ++ second) slots out err) p err
      ("-" ++ s ++ r) ("-" ++ r) := by
  obtain ⟨groups, events, hpasses⟩ := exists_passes hok hall
  have hnames : ∀ c ∈ s.toList, p.table.IsSwitchName c := by
    intro c hc
    obtain ⟨e, he, hswitch, hshort⟩ := hswitches c hc
    exact Table.isSwitchName_of_mem hpasses.valid he hswitch hshort
  have hhead : s.toList.head? ≠ some '-' := by
    intro hhead
    obtain ⟨e, he, hswitch, hshort⟩ := hswitches '-' (List.mem_of_head? hhead)
    obtain ⟨i, hget⟩ := List.mem_iff_getElem?.1 he
    exact Table.short_ne_dash hpasses.valid hget hswitch.1 hshort rfl
  have hwhole : ("-" ++ s ++ r).toList = '-' :: (s.toList ++ r.toList) := by simp
  have hown : IsCluster ("-" ++ s) s.toList := ⟨by simp, by simpa using hs, hhead⟩
  have hrest : IsCluster ("-" ++ r) r.toList := ⟨by simp, by simpa using hr, hdash⟩
  rw [List.append_assoc, List.append_assoc]
  rcases handles_or_halts p ("-" ++ r) second with
    ⟨g, later, left, hsplit, hg⟩ | ⟨ends, halt, hhalts⟩
  · obtain ⟨following, rfl, hsecond⟩ :=
      hg.exists_following hsplit (Table.word_of_isCluster hrest)
    exact .inl (agrees_of_handles hnames hown hrest hwhole hpasses hkeeps hsecond hg slots out err)
  · exact agreesButQuote_of_halts hnames hown hrest hwhole hpasses hkeeps hhalts slots out err

/-- A letter outside ASCII is reported as part of the cluster, or of what was split off. -/
theorem agrees_split_cluster_but_quote :
    let whole := recorder.parse ["record", "take", "-vvé", "-o"] [.truth false, .text none] {} {}
    let split := recorder.parse ["record", "take", "-v", "-vé", "-o"] [.truth false, .text none] {}
      {}
    whole.slots = split.slots ∧ whole.out = split.out ∧
      whole.FailsWith recorder {} (.unknownNonAscii "-vvé") ∧
      split.FailsWith recorder {} (.unknownNonAscii "-vé") := by
  have hok : (recorder.parse ["record", "take"] [.truth false, .text none] {} {}).outcome =
      .ok 2 := by decide +kernel
  have hall : (recorder.parse ["record", "take"] [.truth false, .text none] {} {}).HandledAll := by
    decide +kernel
  have hswitches : ∀ c ∈ "v".toList, ∃ e ∈ recorder.table, e.IsSwitch ∧ e.short = some c := by
    intro c hc
    have hname : c = 'v' := by simpa using hc
    exact ⟨recorder.table[0], List.getElem_mem _, ⟨rfl, rfl⟩, by rw [hname]; rfl⟩
  have hsplit := agrees_split_cluster (s := "v") (r := "vé") (fun _ => by simp) hok hall
    (by decide) hswitches (by decide) (by decide) ["-o"]
  have hwhole : "-" ++ "v" ++ "vé" = "-vvé" := by decide
  have hown : "-" ++ "v" = "-v" := by decide
  have hrest : "-" ++ "vé" = "-vé" := by decide
  rw [hwhole, hown, hrest] at hsplit
  have hdiffer : (recorder.parse ["record", "take", "-vvé", "-o"] [.truth false, .text none] {}
        {}).outcome ≠
      (recorder.parse ["record", "take", "-v", "-vé", "-o"] [.truth false, .text none] {}
        {}).outcome := by
    decide +kernel
  rcases hsplit with hagrees | hquote
  · exact absurd hagrees.outcome hdiffer
  · exact hquote

end Parser

end CommandLine
