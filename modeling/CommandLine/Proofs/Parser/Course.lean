import CommandLine.Proofs.Parser.Phrase

/-!
# The course of a parse

What a parse does with a vector, told without a cursor. The arguments are handled in `Group`s, an
option together with the value that it takes from the next argument, until none is left or one of
them ends the parse. Every vector has such a course (`Parser.exists_course`).
-/

namespace CommandLine

/-- Arguments that are handled together. -/
inductive Group where
  | positional (token : String)
  /-- An argument with options, and the argument after it if that is taken as a value. -/
  | option (token : String) (value : Option String)
deriving DecidableEq, Repr

namespace Group

/-- The arguments of a group. -/
def tokens : Group → List String
  | positional token => [token]
  | option token value => token :: value.toList

/-- The arguments of a group that remain in the vector. -/
def positionals : Group → List String
  | positional token => [token]
  | option _ _ => []

theorem tokens_ne_nil (g : Group) : g.tokens ≠ [] := by
  cases g <;> simp [tokens]

end Group

/-- How the handling of arguments comes to its end. -/
inductive Halt where
  /-- Nothing more is handled, and these arguments are left. -/
  | complete (left : List String)
  | refused (r : Refusal)
deriving DecidableEq, Repr

namespace Parser

/-! ## What happens, argument by argument -/

/-- The mentioned options are assigned, and take `value` from the next argument. -/
inductive Settles (p : Parser) : List Mention → Option String → List Event → Prop
  | nil : Settles p [] none []
  | own {m more value stored events} (hwants : ¬ m.WantsNext)
      (hvalue : m.value? p.directory = .ok stored) (hmore : Settles p more value events) :
      Settles p (m :: more) value (.assigned (m.assignment stored) :: events)
  | following {m value} (hwants : m.WantsNext) :
      Settles p [m] (some value)
        [.assigned (m.assignment (some (m.entry.stored p.directory value)))]

/-- The mentioned options are assigned until one of them, or the argument itself, is refused. -/
inductive Refuses (p : Parser) : List Mention → Close → List String → List Event → Refusal → Prop
  | closed {r following} : Refuses p [] (.refused r) following [] r
  | own {m more close following stored events r} (hwants : ¬ m.WantsNext)
      (hvalue : m.value? p.directory = .ok stored)
      (hmore : Refuses p more close following events r) :
      Refuses p (m :: more) close following (.assigned (m.assignment stored) :: events) r
  | unfit {m more close following f} (hwants : ¬ m.WantsNext)
      (hvalue : m.value? p.directory = .error f) :
      Refuses p (m :: more) close following [] (.fault f)
  | missing {m close} (hwants : m.WantsNext) :
      Refuses p [m] close [] [] (.fault (.requiresValue (m.entry.describe m.form)))

/-- A group is handled and the parse goes on after it. -/
inductive Handles (p : Parser) : Group → List Event → Prop
  | positional {token} (hgoes : p.mode.stopAtPositional = false)
      (hword : p.table.word token = .positional) : Handles p (.positional token) []
  | option {token value phrase events} (hword : p.table.word token = .options phrase)
      (hclose : phrase.close = .settled) (hsettles : p.Settles phrase.mentions value events) :
      Handles p (.option token value) (phrase.log ++ events)

/-- Groups are handled one after the other. -/
inductive HandlesAll (p : Parser) : List Group → List Event → Prop
  | nil : HandlesAll p [] []
  | cons {g groups events later} (hgroup : p.Handles g events) (hmore : p.HandlesAll groups later) :
      HandlesAll p (g :: groups) (events ++ later)

/-- The handling of these arguments ends with the first of them, or because there is none. -/
inductive Halts (p : Parser) : List String → List Event → Halt → Prop
  | exhausted : Halts p [] [] (.complete [])
  | terminated {token left} (hword : p.table.word token = .terminator) :
      Halts p (token :: left) [.terminated] (.complete left)
  | stopped {token left} (hstops : p.mode.stopAtPositional = true)
      (hword : p.table.word token = .positional) :
      Halts p (token :: left) [.stopped token] (.complete (token :: left))
  | refused {token left phrase events r} (hword : p.table.word token = .options phrase)
      (hrefuses : p.Refuses phrase.mentions phrase.close left events r) :
      Halts p (token :: left) (phrase.log ++ events) (.refused r)

variable {p : Parser}

/-! ## Every vector has a course -/

theorem HandlesAll.append {groups groups' : List Group} {events events' : List Event}
    (h : p.HandlesAll groups events) (h' : p.HandlesAll groups' events') :
    p.HandlesAll (groups ++ groups') (events ++ events') := by
  induction h with
  | nil => exact h'
  | cons hgroup hmore ih =>
    rw [List.append_assoc, List.cons_append]
    exact .cons hgroup ih

theorem HandlesAll.handles {groups : List Group} {events : List Event}
    (h : p.HandlesAll groups events) : ∀ g ∈ groups, ∃ events, p.Handles g events := by
  induction h with
  | nil => simp
  | cons hgroup hmore ih => simpa using ⟨⟨_, hgroup⟩, ih⟩

/-- The options that a regular argument mentions are assigned or refused. -/
theorem settles_or_refuses (p : Parser) {mentions : List Mention} {close : Close}
    (following : List String)
    (hlast : ∀ m ∈ mentions.dropLast, ¬ m.WantsNext)
    (hclose : close ≠ .settled → ∀ m ∈ mentions, ¬ m.WantsNext) :
    (close = .settled ∧ ∃ value left events,
      following = value.toList ++ left ∧ p.Settles mentions value events) ∨
      ∃ events r, p.Refuses mentions close following events r := by
  induction mentions with
  | nil =>
    cases close with
    | settled => exact .inl ⟨rfl, none, following, [], rfl, .nil⟩
    | refused r => exact .inr ⟨[], r, .closed⟩
  | cons m more ih =>
    by_cases hwants : m.WantsNext
    -- nothing comes after an option that wants the next argument
    · have hnil : more = [] := by
        by_contra hne
        rw [List.dropLast_cons_of_ne_nil hne] at hlast
        exact hlast m List.mem_cons_self hwants
      have hsettled : close = .settled := by
        by_contra hne
        exact hclose hne m List.mem_cons_self hwants
      rw [hnil, hsettled]
      cases following with
      | nil => exact .inr ⟨[], _, .missing hwants⟩
      | cons value left => exact .inl ⟨rfl, some value, left, _, rfl, .following hwants⟩
    · have hlast' : ∀ m' ∈ more.dropLast, ¬ m'.WantsNext := by
        intro m' hm
        cases more with
        | nil => simp at hm
        | cons next rest =>
          exact hlast m' (by simpa using .inr hm)
      have hclose' : close ≠ .settled → ∀ m' ∈ more, ¬ m'.WantsNext := by
        intro hne m' hm
        exact hclose hne m' (List.mem_cons_of_mem m hm)
      cases hvalue : m.value? p.directory with
      | error f => exact .inr ⟨[], .fault f, .unfit hwants hvalue⟩
      | ok stored =>
        rcases ih hlast' hclose' with ⟨hsettled, value, left, events, hsplit, h⟩ | ⟨events, r, h⟩
        · exact .inl ⟨hsettled, value, left, _, hsplit, .own hwants hvalue h⟩
        · exact .inr ⟨_, r, .own hwants hvalue h⟩

/-- The first argument starts a group, or ends the parse. -/
theorem handles_or_halts (p : Parser) (token : String) (more : List String) :
    (∃ g events left, token :: more = g.tokens ++ left ∧ p.Handles g events) ∨
      ∃ events halt, p.Halts (token :: more) events halt := by
  cases hword : p.table.word token with
  | positional =>
    cases hstop : p.mode.stopAtPositional with
    | true => exact .inr ⟨_, _, .stopped hstop hword⟩
    | false => exact .inl ⟨.positional token, [], more, rfl, .positional hstop hword⟩
  | terminator => exact .inr ⟨_, _, .terminated hword⟩
  | options phrase =>
    have hregular : phrase.Regular := Table.regular_of_word hword
    rcases settles_or_refuses p more hregular.wants hregular.settled with
      ⟨hclose, value, left, events, hsplit, h⟩ | ⟨events, r, h⟩
    · exact .inl ⟨.option token value, _, left, by simp [Group.tokens, hsplit],
        .option hword hclose h⟩
    · exact .inr ⟨_, _, .refused hword h⟩

/-- Every vector has a course: groups that are handled, and an end. -/
theorem exists_course (p : Parser) (argv : List String) :
    ∃ groups events left ends halt, argv = groups.flatMap Group.tokens ++ left ∧
      p.HandlesAll groups events ∧ p.Halts left ends halt := by
  -- by induction on the number of arguments, of which each group takes at least one
  induction hn : argv.length using Nat.strongRecOn generalizing argv with
  | _ n ih =>
    cases argv with
    | nil => exact ⟨[], [], [], [], _, rfl, .nil, .exhausted⟩
    | cons token more =>
      rcases handles_or_halts p token more with ⟨g, events, rest, hsplit, hg⟩ | ⟨ends, halt, h⟩
      · have hlt : rest.length < n := by
          have hpos : 0 < g.tokens.length := List.length_pos_iff.2 g.tokens_ne_nil
          have hlength : n = g.tokens.length + rest.length := by
            rw [← hn, hsplit, List.length_append]
          omega
        obtain ⟨groups, later, left, ends, halt, hrest, hmore, hhalt⟩ := ih _ hlt rest rfl
        refine ⟨g :: groups, events ++ later, left, ends, halt, ?_, .cons hg hmore, hhalt⟩
        rw [hsplit, hrest, List.flatMap_cons, List.append_assoc]
      · exact ⟨[], [], token :: more, ends, halt, rfl, .nil, h⟩

end Parser

end CommandLine
