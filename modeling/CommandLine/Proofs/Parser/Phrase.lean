import CommandLine.Parser.Run
import Mathlib.Data.List.Basic

/-!
# Arguments taken apart

The table alone takes an argument apart (`Table.word`): into the options that it mentions, each
with the value attached to it, and what becomes of the argument after them. Handling an argument
is then assigning what it mentions, one option after the other (`Parser.step_eq`), and only the
last of them can want the next argument as its value.
-/

namespace CommandLine

/-! ## Mentions -/

/-- One option as an argument mentions it. -/
structure Mention where
  index : Nat
  entry : Entry
  form : Form
  /-- The value attached to the option in the same argument. -/
  attached : Option String
deriving DecidableEq, Repr

/-- How an argument ends a parse that does not go well. -/
inductive Refusal where
  | help
  | fault (f : Fault)
deriving DecidableEq, Repr

/-- The step of an argument that is refused. -/
def Refusal.step : Refusal → Step
  | help => .help
  | fault f => .fail f

/-- How a run ends at an argument that is refused. -/
def Refusal.ending : Refusal → Ending
  | help => .help
  | fault f => .fault f

theorem Refusal.ending_ne_complete (r : Refusal) : r.ending ≠ .complete := by
  cases r <;> simp [ending]

/-- What becomes of an argument after the options that it mentions. -/
inductive Close where
  | settled
  | refused (r : Refusal)
deriving DecidableEq, Repr

/-- An argument that mentions options. -/
structure Phrase where
  /-- The events of looking the options up. -/
  log : List Event
  mentions : List Mention
  close : Close
deriving DecidableEq, Repr

/-- What kind of argument a text is. -/
inductive Word where
  | positional
  | terminator
  | options (phrase : Phrase)
deriving DecidableEq, Repr

/-- An option is mentioned before the others of a phrase. -/
def Phrase.cons (m : Mention) (phrase : Phrase) : Phrase :=
  { phrase with mentions := m :: phrase.mentions }

namespace Mention

/-- The option takes the next argument as its value: it has a value, is not negated, and finds
none attached that it could do with. -/
def WantsNext (m : Mention) : Prop :=
  m.entry.takesValue = true ∧ m.form ≠ .negated ∧ m.entry.optional = false ∧ m.attached = none

instance (m : Mention) : Decidable m.WantsNext := inferInstanceAs (Decidable (_ ∧ _ ∧ _ ∧ _))

/-- In its short form only an option with a value has one attached. -/
def Sound (m : Mention) : Prop :=
  m.form = .short → m.entry.takesValue = false → m.attached = none

/-- The value that is stored when the next argument is not wanted, or why there is none. -/
def value? (directory : Option String) (m : Mention) : Except Fault (Option String) :=
  (Cursor.assign { rest := [], attached := m.attached } directory m.entry m.form).map Prod.fst

/-- The assignment of a value to the option. -/
def assignment (m : Mention) (value : Option String) : Assignment :=
  ⟨m.index, m.entry, m.form, value⟩

end Mention

/-- A positional argument does not start with a dash, or is one dash. -/
def IsPositional (token : String) : Prop := token.toList.head? ≠ some '-' ∨ token = "-"

instance (token : String) : Decidable (IsPositional token) := inferInstanceAs (Decidable (_ ∨ _))

/-- What follows two dashes and is looked up as a long name. -/
def IsLong (token : String) (given : List Char) : Prop :=
  token.toList = '-' :: '-' :: given ∧ given ≠ [] ∧ given ≠ ['h', 'e', 'l', 'p']

/-- What follows one dash and is taken for short names. -/
def IsCluster (token : String) (names : List Char) : Prop :=
  token.toList = '-' :: names ∧ names ≠ [] ∧ names.head? ≠ some '-'

namespace Table

/-- What follows two dashes mentions the option that it is resolved to. -/
def longPhrase (t : Table) (given : List Char) : Phrase :=
  let r := t.resolve given
  let log := r.found.events (String.ofList r.text)
  match r.found with
  | .unknown => ⟨log, [], .refused (.fault (.unknownOption (String.ofList given)))⟩
  | .ambiguous hits =>
    ⟨log, [], .refused (.fault (.ambiguous (String.ofList given) (hits.map Hit.name)))⟩
  | .found hit => ⟨log, [⟨hit.index, hit.entry, hit.reading.form, r.attached⟩], .settled⟩

/-- Short names mention one option each, up to the first that has a value. -/
def clusterPhrase (t : Table) (token : String) : List Char → Phrase
  | [] => ⟨[], [], .settled⟩
  | name :: packed =>
    match t.findShort? name with
    | none =>
      ⟨[], [], .refused (if name = 'h' then .help else .fault (Parser.unknownShort token name))⟩
    | some (index, e) =>
      if e.takesValue then
        let attached := if packed.isEmpty then none else some (String.ofList packed)
        ⟨[], [⟨index, e, .short, attached⟩], .settled⟩
      else (t.clusterPhrase token packed).cons ⟨index, e, .short, none⟩

/-- Takes an argument apart. -/
def word (t : Table) (token : String) : Word :=
  match token.toList with
  | '-' :: '-' :: given =>
    if given.isEmpty then .terminator
    else if given = ['h', 'e', 'l', 'p'] then .options ⟨[], [], .refused .help⟩
    else .options (t.longPhrase given)
  | '-' :: name :: packed => .options (t.clusterPhrase token (name :: packed))
  | _ => .positional

theorem word_of_long {t : Table} {token : String} {given : List Char}
    (h : token.toList = '-' :: '-' :: given) :
    t.word token =
      if given.isEmpty then .terminator
      else if given = ['h', 'e', 'l', 'p'] then .options ⟨[], [], .refused .help⟩
      else .options (t.longPhrase given) := by
  simp only [word, h]

theorem word_of_cluster {t : Table} {token : String} {name : Char} {packed : List Char}
    (hname : name ≠ '-') (h : token.toList = '-' :: name :: packed) :
    t.word token = .options (t.clusterPhrase token (name :: packed)) := by
  simp only [word, h]

theorem word_of_positional {t : Table} {token : String}
    (h : ∀ name packed, token.toList ≠ '-' :: name :: packed) : t.word token = .positional := by
  unfold word
  split
  · rename_i htoken
    exact absurd htoken (h _ _)
  · rename_i htoken
    exact absurd htoken (h _ _)
  · rfl

theorem word_of_isLong {t : Table} {token : String} {given : List Char} (h : IsLong token given) :
    t.word token = .options (t.longPhrase given) := by
  obtain ⟨htoken, hne, hhelp⟩ := h
  rw [word_of_long htoken, if_neg (by simpa using hne), if_neg hhelp]

theorem word_of_isCluster {t : Table} {token : String} {names : List Char}
    (h : IsCluster token names) : t.word token = .options (t.clusterPhrase token names) := by
  obtain ⟨htoken, hne, hdash⟩ := h
  obtain ⟨name, packed, rfl⟩ := List.exists_cons_of_ne_nil hne
  exact word_of_cluster (by simpa using hdash) htoken

/-- An argument with options asks for help, or has one long name or some short ones. -/
theorem options_cases {t : Table} {token : String} {phrase : Phrase}
    (h : t.word token = .options phrase) :
    (token = "--help" ∧ phrase = ⟨[], [], .refused .help⟩) ∨
      (∃ given, IsLong token given ∧ phrase = t.longPhrase given) ∨
      ∃ names, IsCluster token names ∧ phrase = t.clusterPhrase token names := by
  rcases Parser.shape_cases token with ⟨given, htoken⟩ | ⟨name, packed, hname, htoken⟩ | hshape
  · rw [word_of_long htoken] at h
    by_cases hempty : given.isEmpty = true
    · rw [if_pos hempty] at h
      cases h
    · rw [if_neg hempty] at h
      by_cases hhelp : given = ['h', 'e', 'l', 'p']
      · rw [if_pos hhelp] at h
        have htext : token = "--help" := String.toList_inj.1 (by rw [htoken, hhelp]; rfl)
        exact .inl ⟨htext, (Word.options.inj h).symm⟩
      · rw [if_neg hhelp] at h
        have hlong : IsLong token given := ⟨htoken, by simpa using hempty, hhelp⟩
        exact .inr (.inl ⟨given, hlong, (Word.options.inj h).symm⟩)
  · rw [word_of_cluster hname htoken] at h
    have hcluster : IsCluster token (name :: packed) := ⟨htoken, by simp, by simpa using hname⟩
    exact .inr (.inr ⟨name :: packed, hcluster, (Word.options.inj h).symm⟩)
  · rw [word_of_positional hshape] at h
    cases h

end Table

namespace Parser

variable {p : Parser} {c c' : Cursor} {m : Mention} {token : String}

/-! ## Assigning what is mentioned -/

/-- Assigns the mentioned options one after the other, and ends as the argument does. -/
def perform (p : Parser) (c : Cursor) : List Mention → Close → List Event × Step
  | [], .settled => ([], .next c)
  | [], .refused r => ([], r.step)
  | m :: more, close =>
    match p.assigned (c.attach m.attached) m.index m.entry m.form with
    | (events, .next c') =>
      let (later, step) := p.perform c' more close
      (events ++ later, step)
    | stopped => stopped

/-- Handles an argument that mentions options. -/
def say (p : Parser) (c : Cursor) (phrase : Phrase) : List Event × Step :=
  let (events, step) := p.perform c phrase.mentions phrase.close
  (phrase.log ++ events, step)

theorem attach_none (hc : c.attached = none) : c.attach none = c := by
  rw [Cursor.attach, ← hc]

/-- An option that wants the next argument takes it. -/
theorem assigned_of_wantsNext (hc : c.attached = none) (hwants : m.WantsNext) :
    p.assigned (c.attach m.attached) m.index m.entry m.form =
      match c.takeFollowing? with
      | some (value, c') =>
        ([.assigned (m.assignment (some (m.entry.stored p.directory value)))], .next c')
      | none => ([], .fail (.requiresValue (m.entry.describe m.form))) := by
  obtain ⟨htakes, hform, hoptional, hattached⟩ := hwants
  rw [hattached, attach_none hc]
  -- no check refuses the option, and only the next argument can be its value
  cases hfollowing : c.takeFollowing? with
  | none =>
    simp [assigned, Cursor.assign, Cursor.takeValue, hc, htakes, hform, hoptional, hfollowing]
  | some following =>
    simp [assigned, Cursor.assign, Cursor.takeValue, hc, htakes, hform, hoptional, hfollowing,
      Mention.assignment]

/-- With a value attached, an option looks at no other argument. -/
theorem assign_of_attached {value : String} (hc : c.attached = none) (hsound : m.Sound)
    (hattached : m.attached = some value) :
    (c.attach m.attached).assign p.directory m.entry m.form =
      (m.value? p.directory).map fun stored => (stored, c) := by
  simp only [Mention.value?, hattached]
  -- the value that is attached is refused or taken, in each form by checks of its own
  cases hform : m.form with
  | negated => simp [Cursor.assign, Cursor.attach, Except.map]
  | short =>
    have htakes : m.entry.takesValue = true := by
      by_contra hfalse
      simp [hsound hform (by simpa using hfalse)] at hattached
    simp [Cursor.assign, Cursor.takeValue, Cursor.attach, htakes, Except.map, ← hc]
  | long =>
    by_cases hrefuses : m.entry.refusesAttached = true
    · simp [Cursor.assign, Cursor.attach, hrefuses, Except.map]
    · have htakes : m.entry.takesValue = true := by
        simp only [Entry.refusesAttached, Bool.or_eq_true, Bool.not_eq_true', not_or,
          Bool.not_eq_false] at hrefuses
        exact hrefuses.1
      simp [Cursor.assign, Cursor.takeValue, Cursor.attach, hrefuses, htakes, Except.map, ← hc]

/-- With no value attached, an option that does not want the next argument looks at none. -/
theorem assign_of_not_attached (hc : c.attached = none) (hwants : ¬ m.WantsNext)
    (hattached : m.attached = none) :
    (c.attach m.attached).assign p.directory m.entry m.form =
      (m.value? p.directory).map fun stored => (stored, c) := by
  rw [Mention.value?, hattached, attach_none hc]
  by_cases htakes : m.form ≠ .negated ∧ m.entry.takesValue = true
  -- an option that may do without a value has its fallback
  · have hoptional : m.entry.optional = true := by
      by_contra hno
      exact hwants ⟨htakes.2, htakes.1, by simpa using hno, hattached⟩
    simp [Cursor.assign, Cursor.takeValue, hc, htakes, hoptional, Except.map]
  -- a switch and a negation have no value
  · simp only [Cursor.assign, hc, Option.isSome_none, Bool.false_eq_true, and_false, false_and,
      if_false, if_neg htakes]
    split <;> rfl

/-- An option that does not want the next argument looks at none, attached value or not. -/
theorem assign_of_not_wantsNext (hc : c.attached = none) (hsound : m.Sound)
    (hwants : ¬ m.WantsNext) :
    (c.attach m.attached).assign p.directory m.entry m.form =
      (m.value? p.directory).map fun stored => (stored, c) := by
  cases hattached : m.attached with
  | none => exact hattached ▸ assign_of_not_attached hc hwants hattached
  | some value => exact hattached ▸ assign_of_attached hc hsound hattached

/-- An option that does not want the next argument is assigned, or refused, whatever arguments
there are. -/
theorem assigned_of_not_wantsNext (hc : c.attached = none) (hsound : m.Sound)
    (hwants : ¬ m.WantsNext) :
    p.assigned (c.attach m.attached) m.index m.entry m.form =
      match m.value? p.directory with
      | .ok value => ([.assigned (m.assignment value)], .next c)
      | .error f => ([], .fail f) := by
  rw [assigned, assign_of_not_wantsNext hc hsound hwants]
  cases m.value? p.directory <;> rfl

/-! ## Handling an argument is assigning what it mentions -/

theorem perform_cons_of_next {events : List Event} {more : List Mention} {close : Close}
    (h : p.assigned (c.attach m.attached) m.index m.entry m.form = (events, .next c')) :
    p.perform c (m :: more) close =
      (events ++ (p.perform c' more close).1, (p.perform c' more close).2) := by
  simp [perform, h]

theorem perform_cons_of_fail {events : List Event} {more : List Mention} {close : Close}
    {f : Fault} (h : p.assigned (c.attach m.attached) m.index m.entry m.form = (events, .fail f)) :
    p.perform c (m :: more) close = (events, .fail f) := by
  simp [perform, h]

/-- An option that does without the next argument is assigned where the cursor stands. -/
theorem perform_cons_of_value {more : List Mention} {close : Close} {stored : Option String}
    (hc : c.attached = none) (hsound : m.Sound) (hwants : ¬ m.WantsNext)
    (hvalue : m.value? p.directory = .ok stored) :
    p.perform c (m :: more) close =
      (.assigned (m.assignment stored) :: (p.perform c more close).1,
        (p.perform c more close).2) := by
  have hassigned := assigned_of_not_wantsNext (p := p) hc hsound hwants
  rw [hvalue] at hassigned
  rw [perform_cons_of_next hassigned, List.singleton_append]

theorem perform_cons_of_unfit {more : List Mention} {close : Close} {f : Fault}
    (hc : c.attached = none) (hsound : m.Sound) (hwants : ¬ m.WantsNext)
    (hvalue : m.value? p.directory = .error f) :
    p.perform c (m :: more) close = ([], .fail f) := by
  have hassigned := assigned_of_not_wantsNext (p := p) hc hsound hwants
  rw [hvalue] at hassigned
  exact perform_cons_of_fail hassigned

/-- A mention that ends the argument is all that is left to do. -/
theorem perform_singleton (p : Parser) (c : Cursor) (m : Mention) :
    p.perform c [m] .settled = p.assigned (c.attach m.attached) m.index m.entry m.form := by
  unfold perform assigned
  cases (c.attach m.attached).assign p.directory m.entry m.form <;> simp [perform]

theorem long_eq_say (p : Parser) (c : Cursor) (given : List Char) :
    p.long c given = p.say c (p.table.longPhrase given) := by
  unfold long say Table.longPhrase
  dsimp only
  cases (p.table.resolve given).found with
  | unknown => rfl
  | ambiguous hits => rfl
  | found hit =>
    dsimp only
    rw [perform_singleton]

/-- A switch has nothing attached, and leaves the cursor where it is. -/
theorem say_cons_of_switch {phrase : Phrase} {index : Nat} {e : Entry}
    (hc : c.attached = none) (htakes : e.takesValue = false) (hlog : phrase.log = []) :
    p.say c (phrase.cons ⟨index, e, .short, none⟩) =
      (.assigned ⟨index, e, .short, none⟩ :: (p.say c phrase).1, (p.say c phrase).2) := by
  have hassigned : p.assigned (c.attach none) index e .short =
      ([.assigned ⟨index, e, .short, none⟩], .next c) := by
    simp [assigned, Cursor.assign, attach_none hc, htakes]
  simp only [say, Phrase.cons, hlog, List.nil_append]
  rw [perform_cons_of_next hassigned, List.singleton_append]

theorem log_clusterPhrase (t : Table) (token : String) (names : List Char) :
    (t.clusterPhrase token names).log = [] := by
  induction names with
  | nil => rfl
  | cons name packed ih =>
    unfold Table.clusterPhrase
    cases t.findShort? name with
    | none => rfl
    | some found =>
      dsimp only
      split
      · rfl
      · exact ih

theorem cluster_eq_say (hc : c.attached = none) (names : List Char) :
    p.cluster token c names = p.say c (p.table.clusterPhrase token names) := by
  induction names with
  | nil => rfl
  | cons name packed ih =>
    unfold cluster Table.clusterPhrase
    cases p.table.findShort? name with
    | none =>
      dsimp only
      split <;> rfl
    | some found =>
      obtain ⟨index, e⟩ := found
      dsimp only
      by_cases htakes : e.takesValue = true
      · rw [if_pos htakes, if_pos htakes]
        exact (perform_singleton p c ⟨_, _, _, _⟩).symm
      -- the cursor has not moved, so that the rest of the cluster is handled from it
      · rw [if_neg htakes, if_neg htakes,
          say_cons_of_switch hc (by simpa using htakes) (log_clusterPhrase _ _ _), ← ih]
        simp [assigned, Cursor.assign, htakes]

/-- A step takes the argument apart, and does what it says. -/
theorem step_eq (hc : c.attached = none) (token : String) :
    p.step c token =
      if c.isLone = true ∧ token.toList = ['-', 'h'] then ([], .help)
      else match p.table.word token with
        | .positional =>
          if p.mode.stopAtPositional then ([.stopped token], .complete c)
          else ([], .next (c.collect token))
        | .terminator => ([.terminated], .complete c.advance)
        | .options phrase => p.say c phrase := by
  rcases Parser.shape_cases token with ⟨given, htoken⟩ | ⟨name, packed, hname, htoken⟩ | hshape
  -- two dashes
  · have hnot : ¬ (c.isLone = true ∧ token.toList = ['-', 'h']) := by
      simp [htoken]
    rw [if_neg hnot, step_of_long htoken, Table.word_of_long htoken]
    by_cases hempty : given.isEmpty = true
    · rw [if_pos hempty, if_pos hempty]
    · rw [if_neg hempty, if_neg hempty]
      by_cases hhelp : given = ['h', 'e', 'l', 'p']
      · rw [if_pos hhelp, if_pos hhelp]
        rfl
      · rw [if_neg hhelp, if_neg hhelp]
        exact long_eq_say p c given
  -- one dash and a name: a lone `-h` is told apart before the names are looked at
  · have hlone : (c.isLone && name == 'h' && packed.isEmpty) = true ↔
        c.isLone = true ∧ token.toList = ['-', 'h'] := by
      simp [htoken, and_assoc]
    rw [step_of_cluster hname htoken, Table.word_of_cluster hname htoken]
    by_cases h : c.isLone = true ∧ token.toList = ['-', 'h']
    · rw [if_pos h, if_pos (hlone.2 h)]
    · rw [if_neg h, if_neg (mt hlone.1 h)]
      exact cluster_eq_say hc (name :: packed)
  -- no dash, or nothing after it
  · have hnot : ¬ (c.isLone = true ∧ token.toList = ['-', 'h']) := by
      intro h
      exact hshape _ _ h.2
    rw [if_neg hnot, step_of_positional hshape, Table.word_of_positional hshape]

end Parser

/-! ## What holds of every argument -/

namespace Table

variable {t : Table} {token : String}

theorem word_eq_positional_iff : t.word token = .positional ↔ IsPositional token := by
  have hdash : token = "-" ↔ token.toList = ['-'] := String.toList_inj.symm
  rw [IsPositional, hdash]
  rcases Parser.shape_cases token with ⟨given, htoken⟩ | ⟨name, packed, hname, htoken⟩ | hshape
  · rw [word_of_long htoken, htoken]
    split
    · simp
    · split <;> simp
  · rw [word_of_cluster hname htoken, htoken]
    simp
  · rw [word_of_positional hshape]
    cases htoken : token.toList with
    | nil => simp
    | cons c cs =>
      by_cases hc : c = '-'
      · cases cs with
        | nil => simp [hc]
        | cons d ds => exact absurd (hc ▸ htoken) (hshape d ds)
      · simp [hc]

/-- Two dashes and nothing after them end the options. -/
theorem word_eq_terminator_iff : t.word token = .terminator ↔ token = "--" := by
  have hdashes : token = "--" ↔ token.toList = ['-', '-'] := String.toList_inj.symm
  rw [hdashes]
  rcases Parser.shape_cases token with ⟨given, htoken⟩ | ⟨name, packed, hname, htoken⟩ | hshape
  · rw [word_of_long htoken, htoken]
    cases given with
    | nil => simp
    | cons c cs =>
      rw [if_neg (by simp)]
      split <;> simp
  · rw [word_of_cluster hname htoken, htoken]
    simp [hname]
  · rw [word_of_positional hshape]
    simpa using hshape '-' []

/-- A long name is never read as a short one. -/
theorem form_ne_short_of_reading? {text : List Char} {e : Entry} {r : Reading}
    (h : t.reading? text e = some r) : r.form ≠ .short := by
  have hplain : ∀ negated faces, Form.ofPolarity negated faces ≠ .short := by decide
  unfold reading? Entry.reading? at h
  dsimp only at h
  repeat' split at h
  all_goals cases h
  all_goals first | exact hplain _ _ | exact Form.noConfusion

end Table

/-- Only the last of the options that an argument mentions may want the next argument, and only
in an argument that is not refused for other reasons. -/
structure Phrase.Regular (phrase : Phrase) : Prop where
  sound : ∀ m ∈ phrase.mentions, m.Sound
  wants : ∀ m ∈ phrase.mentions.dropLast, ¬ m.WantsNext
  settled : phrase.close ≠ .settled → ∀ m ∈ phrase.mentions, ¬ m.WantsNext

theorem Phrase.regular_of_mentions_nil {phrase : Phrase} (h : phrase.mentions = []) :
    phrase.Regular := by
  refine ⟨?_, ?_, ?_⟩
  · intro m hm
    simp [h] at hm
  · intro m hm
    simp [h] at hm
  · intro _ m hm
    simp [h] at hm

theorem Phrase.regular_of_mentions_singleton {phrase : Phrase} {m : Mention}
    (h : phrase.mentions = [m]) (hclose : phrase.close = .settled) (hsound : m.Sound) :
    phrase.Regular := by
  refine ⟨?_, ?_, ?_⟩
  · intro m' hm
    rw [h, List.mem_singleton] at hm
    exact hm ▸ hsound
  · intro m' hm
    simp [h] at hm
  · intro hrefused
    exact absurd hclose hrefused

/-- A switch in front of regular mentions keeps them so. -/
theorem Phrase.Regular.cons_switch {phrase : Phrase} {m : Mention} (h : phrase.Regular)
    (htakes : m.entry.takesValue = false) (hattached : m.attached = none) :
    (phrase.cons m).Regular := by
  have hswitch : ¬ m.WantsNext := by
    intro hwants
    exact absurd hwants.1 (by simp [htakes])
  refine ⟨?_, ?_, ?_⟩
  · intro m' hm
    rcases List.mem_cons.1 hm with rfl | hmore
    · intro _ _
      exact hattached
    · exact h.sound m' hmore
  -- the last of the mentions stays the last, unless there was none
  · intro m' hm
    cases hmentions : phrase.mentions with
    | nil => simp [Phrase.cons, hmentions] at hm
    | cons next more =>
      rw [Phrase.cons, hmentions, List.dropLast_cons_of_ne_nil (by simp)] at hm
      rcases List.mem_cons.1 hm with rfl | hmore
      · exact hswitch
      · exact h.wants m' (hmentions ▸ hmore)
  · intro hclose m' hm
    rcases List.mem_cons.1 hm with rfl | hmore
    · exact hswitch
    · exact h.settled hclose m' hmore

namespace Table

variable {t : Table} {token : String} {phrase : Phrase}

theorem regular_longPhrase (t : Table) (given : List Char) : (t.longPhrase given).Regular := by
  unfold longPhrase
  dsimp only
  cases hfound : (t.resolve given).found with
  | unknown => exact Phrase.regular_of_mentions_nil rfl
  | ambiguous hits => exact Phrase.regular_of_mentions_nil rfl
  | found hit =>
    refine Phrase.regular_of_mentions_singleton rfl rfl ?_
    intro hform
    have hmem : hit ∈ t.hits (t.resolve given).text := mem_hits_of_lookup hfound
    exact absurd hform (form_ne_short_of_reading? (mem_hits_iff.1 hmem).2)

theorem regular_clusterPhrase (t : Table) (token : String) (names : List Char) :
    (t.clusterPhrase token names).Regular := by
  induction names with
  | nil => exact Phrase.regular_of_mentions_nil rfl
  | cons name packed ih =>
    unfold clusterPhrase
    cases t.findShort? name with
    | none => exact Phrase.regular_of_mentions_nil rfl
    | some found =>
      dsimp only
      -- an option with a value ends the cluster, so that all before it are switches
      by_cases htakes : found.2.takesValue = true
      · rw [if_pos htakes]
        refine Phrase.regular_of_mentions_singleton rfl rfl ?_
        intro _ hno
        simp [htakes] at hno
      · rw [if_neg htakes]
        exact ih.cons_switch (by simpa using htakes) rfl

theorem regular_of_word (h : t.word token = .options phrase) : phrase.Regular := by
  rcases options_cases h with ⟨-, rfl⟩ | ⟨given, -, rfl⟩ | ⟨names, -, rfl⟩
  · exact Phrase.regular_of_mentions_nil rfl
  · exact regular_longPhrase t given
  · exact regular_clusterPhrase t token names

/-- An argument with options either mentions one or does not go well. -/
theorem mentions_ne_nil_of_word (h : t.word token = .options phrase)
    (hclose : phrase.close = .settled) : phrase.mentions ≠ [] := by
  rcases options_cases h with ⟨-, rfl⟩ | ⟨given, -, rfl⟩ | ⟨names, ⟨-, hne, -⟩, rfl⟩
  · cases hclose
  · revert hclose
    unfold longPhrase
    dsimp only
    split <;> simp
  · obtain ⟨name, packed, rfl⟩ := List.exists_cons_of_ne_nil hne
    revert hclose
    unfold clusterPhrase
    dsimp only
    split
    · simp
    · split <;> simp [Phrase.cons]

end Table

end CommandLine
