import CommandLine.Proofs.Parser.Assigned
import CommandLine.Proofs.Parser.Following
import Mathlib.Data.List.Forall2

/-!
# Parsers that do alike

Two parsers that take every single argument alike come to the same over whole vectors. What *alike*
means is left open: a `Likeness` says which mentions, refusals and assignments correspond.
`Parser.Resembles` asks this of single arguments, and `Parser.Resembles.run` has it of runs.
-/

namespace CommandLine

/-- Which mentions, refusals and assignments of two parsers correspond. -/
structure Likeness where
  mention : Mention → Mention → Prop
  refusal : Refusal → Refusal → Prop
  assignment : Assignment → Assignment → Prop

namespace Likeness

/-- Two arguments end alike. -/
inductive Closes (l : Likeness) : Close → Close → Prop
  | settled : Closes l .settled .settled
  | refused {r r' : Refusal} (h : l.refusal r r') : Closes l (.refused r) (.refused r')

/-- Two arguments are of one kind and mention options that correspond one by one. The log may
differ. -/
inductive Words (l : Likeness) : Word → Word → Prop
  | positional : Words l .positional .positional
  | terminator : Words l .terminator .terminator
  | options {phrase phrase' : Phrase}
      (hmentions : List.Forall₂ l.mention phrase.mentions phrase'.mentions)
      (hclose : l.Closes phrase.close phrase'.close) :
      Words l (.options phrase) (.options phrase')

/-- The assignments among two lists of events correspond one by one. -/
def Events (l : Likeness) (events events' : List Event) : Prop :=
  List.Forall₂ l.assignment (events.filterMap Event.assignment?)
    (events'.filterMap Event.assignment?)

/-- Two ends of a parse correspond. -/
inductive Halts (l : Likeness) : Halt → Halt → Prop
  | complete (left : List String) : Halts l (.complete left) (.complete left)
  | refused {r r' : Refusal} (h : l.refusal r r') : Halts l (.refused r) (.refused r')

variable {l : Likeness}

theorem Events.cons {events events' : List Event} {a a' : Assignment}
    (h : l.assignment a a') (hmore : l.Events events events') :
    l.Events (.assigned a :: events) (.assigned a' :: events') :=
  List.Forall₂.cons h hmore

theorem Events.append {first first' second second' : List Event}
    (h : l.Events first first') (h' : l.Events second second') :
    l.Events (first ++ second) (first' ++ second') := by
  unfold Events
  rw [List.filterMap_append, List.filterMap_append]
  exact List.rel_append h h'

/-- What is only logged may be left out on either side. -/
theorem Events.behind_logs {log log' events events' : List Event}
    (hlog : log.filterMap Event.assignment? = []) (hlog' : log'.filterMap Event.assignment? = [])
    (h : l.Events events events') : l.Events (log ++ events) (log' ++ events') := by
  unfold Events
  rw [List.filterMap_append, List.filterMap_append, hlog, hlog']
  exact h

end Likeness

/-! ## Tables that take arguments alike -/

/-- Two options are mentioned alike by their short names, whatever is attached to them. -/
def Likeness.Found (l : Likeness) (found found' : Nat × Entry) : Prop :=
  found'.2.takesValue = found.2.takesValue ∧
    ∀ attached, l.mention ⟨found.1, found.2, .short, attached⟩
      ⟨found'.1, found'.2, .short, attached⟩

namespace Table

variable {t t' : Table} {l : Likeness}

/-- Short names that find corresponding options mention them in any cluster. -/
theorem clusterPhrase_alike (hrefusal : ∀ r, l.refusal r r)
    (hshort : ∀ name, Option.Rel l.Found (t.findShort? name) (t'.findShort? name))
    (token : String) (names : List Char) :
    List.Forall₂ l.mention (t.clusterPhrase token names).mentions
        (t'.clusterPhrase token names).mentions ∧
      l.Closes (t.clusterPhrase token names).close (t'.clusterPhrase token names).close := by
  induction names with
  | nil => exact ⟨.nil, .settled⟩
  | cons name packed ih =>
    have hname := hshort name
    unfold clusterPhrase
    generalize t.findShort? name = found at hname
    generalize t'.findShort? name = found' at hname
    cases hname with
    | none => exact ⟨.nil, .refused (hrefusal _)⟩
    | some hfound =>
      obtain ⟨htakes, hmention⟩ := hfound
      dsimp only
      rw [htakes]
      split
      · exact ⟨.cons (hmention _) .nil, .settled⟩
      · exact ⟨.cons (hmention none) ih.1, ih.2⟩

/-- Tables that take long names alike, and short ones, take every argument alike. -/
theorem word_alike (hrefusal : ∀ r, l.refusal r r)
    (hlong : ∀ given, l.Words (.options (t.longPhrase given)) (.options (t'.longPhrase given)))
    (hshort : ∀ name, Option.Rel l.Found (t.findShort? name) (t'.findShort? name))
    (token : String) : l.Words (t.word token) (t'.word token) := by
  rcases Parser.shape_cases token with ⟨given, htoken⟩ | ⟨name, packed, hname, htoken⟩ | hshape
  · rw [word_of_long htoken, word_of_long htoken]
    split
    · exact .terminator
    · split
      · exact .options .nil (.refused (hrefusal .help))
      · exact hlong given
  · rw [word_of_cluster hname htoken, word_of_cluster hname htoken]
    obtain ⟨hmentions, hclose⟩ := clusterPhrase_alike hrefusal hshort token (name :: packed)
    exact .options hmentions hclose
  · rw [word_of_positional hshape, word_of_positional hshape]
    exact .positional

end Table

/-! ## Parsers that take arguments alike -/

/-- Two runs leave the same vector and end alike, and what they assign corresponds. -/
structure Run.Resembles (r r' : Run) (l : Likeness) : Prop where
  argv : r.argv = r'.argv
  ending : (r.ending = .complete ∧ r'.ending = .complete) ∨
    ∃ c c', l.refusal c c' ∧ r.ending = c.ending ∧ r'.ending = c'.ending
  events : l.Events r.events r'.events

/-- Ends that correspond make runs that do, at the same place. -/
theorem Likeness.Halts.run {l : Likeness} {halt halt' : Halt} (h : l.Halts halt halt')
    (c : Cursor) {events events' : List Event} (hevents : l.Events events events') :
    (halt.run c events).Resembles (halt'.run c events') l := by
  cases h with
  | complete left => exact ⟨rfl, .inl ⟨rfl, rfl⟩, hevents.append .nil⟩
  | refused hr => exact ⟨rfl, .inr ⟨_, _, hr, rfl, rfl⟩, hevents⟩

/-- The parser `p'` takes every argument as `p` does, up to what `l` lets differ. -/
structure Parser.Resembles (p p' : Parser) (l : Likeness) : Prop where
  mode : p.mode = p'.mode
  word : ∀ token, l.Words (p.table.word token) (p'.table.word token)
  wants : ∀ {m m'}, l.mention m m' → (m.WantsNext ↔ m'.WantsNext)
  value : ∀ {m m' stored}, l.mention m m' → m.value? p.directory = .ok stored →
    ∃ stored', m'.value? p'.directory = .ok stored' ∧
      l.assignment (m.assignment stored) (m'.assignment stored')
  unfit : ∀ {m m' f}, l.mention m m' → m.value? p.directory = .error f →
    ∃ f', m'.value? p'.directory = .error f' ∧ l.refusal (.fault f) (.fault f')
  next : ∀ {m m'}, l.mention m m' → m.WantsNext → ∀ value,
    l.assignment (m.assignment (some (m.entry.stored p.directory value)))
      (m'.assignment (some (m'.entry.stored p'.directory value)))
  missing : ∀ {m m'}, l.mention m m' → m.WantsNext →
    l.refusal (.fault (.requiresValue (m.entry.describe m.form)))
      (.fault (.requiresValue (m'.entry.describe m'.form)))
  help : l.refusal .help .help

namespace Parser.Resembles

variable {p p' : Parser} {l : Likeness} {mentions mentions' : List Mention}
  {events : List Event}

/-! ## One argument -/

/-- What is assigned on one side is assigned on the other. -/
theorem settles (h : p.Resembles p' l) {following : Option String}
    (hsettles : p.Settles mentions following events)
    (hmentions : List.Forall₂ l.mention mentions mentions') :
    ∃ events', p'.Settles mentions' following events' ∧ l.Events events events' := by
  induction hsettles generalizing mentions' with
  | nil =>
    cases hmentions
    exact ⟨[], .nil, .nil⟩
  | own hwants hvalue hmore ih =>
    cases hmentions with
    | cons hm hrest =>
      obtain ⟨events', hmore', hevents⟩ := ih hrest
      obtain ⟨stored', hvalue', hassignment⟩ := h.value hm hvalue
      have hwants' := mt (h.wants hm).2 hwants
      exact ⟨_, .own hwants' hvalue' hmore', hevents.cons hassignment⟩
  | following hwants =>
    cases hmentions with
    | cons hm hrest =>
      cases hrest
      exact ⟨_, .following ((h.wants hm).1 hwants), .cons (h.next hm hwants _) .nil⟩

/-- What is refused on one side is refused on the other, after the same assignments. -/
theorem refuses (h : p.Resembles p' l) {close close' : Close} {left : List String} {r : Refusal}
    (hrefuses : p.Refuses mentions close left events r)
    (hmentions : List.Forall₂ l.mention mentions mentions') (hclose : l.Closes close close') :
    ∃ events' r', p'.Refuses mentions' close' left events' r' ∧ l.Events events events' ∧
      l.refusal r r' := by
  induction hrefuses generalizing mentions' with
  | closed =>
    cases hmentions
    cases hclose with
    | refused hr => exact ⟨[], _, .closed, .nil, hr⟩
  | own hwants hvalue hmore ih =>
    cases hmentions with
    | cons hm hrest =>
      obtain ⟨events', r', hmore', hevents, hr⟩ := ih hrest hclose
      obtain ⟨stored', hvalue', hassignment⟩ := h.value hm hvalue
      have hwants' := mt (h.wants hm).2 hwants
      exact ⟨_, r', .own hwants' hvalue' hmore', hevents.cons hassignment, hr⟩
  | unfit hwants hvalue =>
    cases hmentions with
    | cons hm hrest =>
      obtain ⟨f', hvalue', hr⟩ := h.unfit hm hvalue
      exact ⟨[], _, .unfit (mt (h.wants hm).2 hwants) hvalue', .nil, hr⟩
  | missing hwants =>
    cases hmentions with
    | cons hm hrest =>
      cases hrest
      exact ⟨[], _, .missing ((h.wants hm).1 hwants), .nil, h.missing hm hwants⟩

/-! ## Whole vectors -/

theorem positional (h : p.Resembles p' l) {token : String}
    (hword : p.table.word token = .positional) : p'.table.word token = .positional := by
  have hlike := h.word token
  rw [hword] at hlike
  generalize p'.table.word token = word' at hlike
  cases hlike
  rfl

theorem terminator (h : p.Resembles p' l) {token : String}
    (hword : p.table.word token = .terminator) : p'.table.word token = .terminator := by
  have hlike := h.word token
  rw [hword] at hlike
  generalize p'.table.word token = word' at hlike
  cases hlike
  rfl

theorem options (h : p.Resembles p' l) {token : String} {phrase : Phrase}
    (hword : p.table.word token = .options phrase) :
    ∃ phrase', p'.table.word token = .options phrase' ∧
      List.Forall₂ l.mention phrase.mentions phrase'.mentions ∧
      l.Closes phrase.close phrase'.close := by
  have hlike := h.word token
  rw [hword] at hlike
  generalize p'.table.word token = word' at hlike
  cases hlike with
  | options hmentions hclose => exact ⟨_, rfl, hmentions, hclose⟩

theorem handles (h : p.Resembles p' l) {g : Group} (hg : p.Handles g events) :
    ∃ events', p'.Handles g events' ∧ l.Events events events' := by
  cases hg with
  | positional hgoes hword =>
    exact ⟨[], .positional (h.mode ▸ hgoes) (h.positional hword), .nil⟩
  | option hword hclose hsettles =>
    obtain ⟨phrase', hword', hmentions, hcloses⟩ := h.options hword
    rw [hclose] at hcloses
    generalize hclose' : phrase'.close = close' at hcloses
    cases hcloses
    obtain ⟨events', hsettles', hevents⟩ := h.settles hsettles hmentions
    exact ⟨_, .option hword' hclose' hsettles',
      hevents.behind_logs (Table.assignments_log hword) (Table.assignments_log hword')⟩

theorem handlesAll (h : p.Resembles p' l) {groups : List Group}
    (hall : p.HandlesAll groups events) :
    ∃ events', p'.HandlesAll groups events' ∧ l.Events events events' := by
  induction hall with
  | nil => exact ⟨[], .nil, .nil⟩
  | cons hgroup hmore ih =>
    obtain ⟨events', hgroup', hevents⟩ := h.handles hgroup
    obtain ⟨later', hmore', hlater⟩ := ih
    exact ⟨events' ++ later', .cons hgroup' hmore', hevents.append hlater⟩

theorem halts (h : p.Resembles p' l) {left : List String} {halt : Halt}
    (hhalts : p.Halts left events halt) :
    ∃ events' halt', p'.Halts left events' halt' ∧ l.Events events events' ∧
      l.Halts halt halt' := by
  cases hhalts with
  | exhausted => exact ⟨[], _, .exhausted, .nil, .complete []⟩
  | terminated hword => exact ⟨_, _, .terminated (h.terminator hword), .nil, .complete _⟩
  | stopped hstops hword =>
    exact ⟨_, _, .stopped (h.mode ▸ hstops) (h.positional hword), .nil, .complete _⟩
  | refused hword hrefuses =>
    obtain ⟨phrase', hword', hmentions, hclose⟩ := h.options hword
    obtain ⟨events', r', hrefuses', hevents, hr⟩ := h.refuses hrefuses hmentions hclose
    exact ⟨_, _, .refused hword' hrefuses',
      hevents.behind_logs (Table.assignments_log hword) (Table.assignments_log hword'),
      .refused hr⟩

/-- Parsers that take every argument alike come to the same over any vector. -/
theorem run (h : p.Resembles p' l) (argv : List String) :
    (p.run (Cursor.start p.mode argv)).Resembles (p'.run (Cursor.start p'.mode argv)) l := by
  rw [← h.mode]
  by_cases hlone : (Cursor.start p.mode argv).LoneHelp
  · rw [Parser.run_of_loneHelp hlone, Parser.run_of_loneHelp hlone]
    exact ⟨rfl, .inr ⟨_, _, h.help, rfl, rfl⟩, .nil⟩
  · obtain ⟨groups, events, left, ends, halt, hrest, hall, hhalts⟩ :=
      p.exists_course (Cursor.start p.mode argv).rest
    obtain ⟨events', hall', hevents⟩ := h.handlesAll hall
    obtain ⟨ends', halt', hhalts', hends, hlike⟩ := h.halts hhalts
    rw [Parser.run_of_course (Cursor.attached_start _ _) hlone hrest hall hhalts,
      Parser.run_of_course (Cursor.attached_start _ _) hlone hrest hall' hhalts']
    exact hlike.run _ (hevents.append hends)

end Parser.Resembles

end CommandLine
