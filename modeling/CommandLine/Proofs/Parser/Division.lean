import CommandLine.Proofs.Parser.Following

/-!
# How a parse divides its vector

A parse that goes well divides the vector into the argument that it keeps, the groups that it
handles, and a tail that it leaves alone (`Parser.exists_division`). No argument is lost, and
the tail could be any other.
-/

namespace CommandLine

/-- What a parse leaves alone at the end of the vector. -/
inductive Tail where
  | none
  /-- A terminator, and the arguments behind it. -/
  | terminated (left : List String)
  /-- A positional argument that stops the parse, and the arguments behind it. -/
  | stopped (token : String) (left : List String)
deriving DecidableEq, Repr

namespace Tail

/-- The arguments of the tail. -/
def tokens : Tail → List String
  | none => []
  | terminated left => "--" :: left
  | stopped token left => token :: left

/-- The arguments of the tail that remain: all but a terminator. -/
def residual : Tail → List String
  | none => []
  | terminated left => left
  | stopped token left => token :: left

/-- The tail with other arguments behind the one that it starts with. -/
def replace (left : List String) : Tail → Tail
  | none => none
  | terminated _ => terminated left
  | stopped token _ => stopped token left

theorem replace_tokens_eq_nil {tail : Tail} {left : List String} (h : tail.tokens = []) :
    (tail.replace left).tokens = [] := by
  cases tail with
  | none => rfl
  | terminated _ => cases h
  | stopped _ _ => cases h

/-- A positional argument starts a tail only if the parser stops at such. -/
def Fits (p : Parser) : Tail → Prop
  | stopped token _ => p.mode.stopAtPositional = true ∧ IsPositional token
  | _ => True

end Tail

/-- A positional argument is a group of its own, and an option has a value from the next argument
exactly when the last option that the argument mentions wants it. -/
def Group.Fits (p : Parser) : Group → Prop
  | positional token => p.mode.stopAtPositional = false ∧ IsPositional token
  | option token value =>
    ¬ IsPositional token ∧ token ≠ "--" ∧
      ∃ phrase m, p.table.word token = .options phrase ∧ phrase.mentions.getLast? = some m ∧
        (value.isSome = true ↔ m.WantsNext)

/-- A vector in three parts: what is kept unseen, what is handled, and what is left alone. -/
structure Division where
  kept : List String
  groups : List Group
  tail : Tail
deriving DecidableEq, Repr

namespace Division

/-- The vector that is divided. -/
def tokens (d : Division) : List String :=
  d.kept ++ d.groups.flatMap Group.tokens ++ d.tail.tokens

/-- What remains of the vector. -/
def residual (d : Division) : List String :=
  d.kept ++ d.groups.flatMap Group.positionals ++ d.tail.residual

/-- The division with other arguments behind the one that its tail starts with. -/
def replace (d : Division) (left : List String) : Division :=
  { d with tail := d.tail.replace left }

/-- The division of a vector for a parser. -/
structure Fits (d : Division) (p : Parser) (argv : List String) : Prop where
  tokens : d.tokens = argv
  kept : d.kept = if p.mode.keepFirst then argv.take 1 else []
  groups : ∀ g ∈ d.groups, g.Fits p
  tail : d.tail.Fits p

end Division

namespace Parser

variable {p : Parser}

/-! ## The groups of a course -/

/-- The value is taken for the last of the options, if that wants one. -/
theorem Settles.last {mentions : List Mention} {value : Option String} {events : List Event}
    (h : p.Settles mentions value events) (hne : mentions ≠ []) :
    ∃ m, mentions.getLast? = some m ∧ (value.isSome = true ↔ m.WantsNext) := by
  induction h with
  | nil => exact absurd rfl hne
  | @own m more value stored events hwants hvalue hmore ih =>
    cases hmore with
    | nil =>
      refine ⟨m, rfl, ?_⟩
      simp [hwants]
    | own hwants' hvalue' hmore' => simpa using ih (by simp)
    | following hwants' => simpa using ih (by simp)
  | @following m value hwants =>
    refine ⟨m, rfl, ?_⟩
    simp [hwants]

theorem Handles.fits {g : Group} {events : List Event} (h : p.Handles g events) : g.Fits p := by
  cases h with
  | positional hgoes hword => exact ⟨hgoes, Table.word_eq_positional_iff.1 hword⟩
  | @option token value phrase events hword hclose hsettles =>
    refine ⟨?_, ?_, ?_⟩
    · intro hpositional
      rw [Table.word_eq_positional_iff.2 hpositional] at hword
      cases hword
    · intro hterminator
      rw [Table.word_eq_terminator_iff.2 hterminator] at hword
      cases hword
    · obtain ⟨m, hlast, hvalue⟩ := hsettles.last (Table.mentions_ne_nil_of_word hword hclose)
      exact ⟨phrase, m, hword, hlast, hvalue⟩

theorem HandlesAll.fits {groups : List Group} {events : List Event}
    (h : p.HandlesAll groups events) : ∀ g ∈ groups, g.Fits p := by
  induction h with
  | nil =>
    intro g hg
    cases hg
  | cons hgroup hmore ih =>
    intro g hg
    rcases List.mem_cons.1 hg with rfl | hg
    · exact hgroup.fits
    · exact ih g hg

/-! ## The tail of a course -/

/-- What a course leaves is a tail, and with other arguments in it the course ends the same. -/
theorem Halts.exists_tail {left residual : List String} {ends : List Event}
    (h : p.Halts left ends (.complete residual)) :
    ∃ tail : Tail, tail.tokens = left ∧ tail.residual = residual ∧ tail.Fits p ∧
      ∀ other,
        p.Halts (tail.replace other).tokens ends (.complete (tail.replace other).residual) := by
  cases h with
  | exhausted => exact ⟨.none, rfl, rfl, trivial, fun _ => .exhausted⟩
  | @terminated token left hword =>
    have htoken : token = "--" := Table.word_eq_terminator_iff.1 hword
    refine ⟨.terminated residual, by rw [htoken]; rfl, rfl, trivial, ?_⟩
    intro other
    exact .terminated (htoken ▸ hword)
  | @stopped token left hstops hword =>
    refine ⟨.stopped token left, rfl, rfl, ⟨hstops, Table.word_eq_positional_iff.1 hword⟩, ?_⟩
    intro other
    exact .stopped hstops hword

/-- A tail is not a call for help, and there is always one argument that it does not replace. -/
theorem replace_not_help {tail : Tail} {front left : List String} (h : tail.Fits p)
    (hfront : front ++ tail.tokens ≠ ["-h"]) : front ++ (tail.replace left).tokens ≠ ["-h"] := by
  cases tail with
  | none => exact hfront
  | terminated _ =>
    intro heq
    rcases List.append_eq_singleton_iff.1 heq with ⟨_, htail⟩ | ⟨_, htail⟩
    · exact absurd (List.cons.inj htail).1 (by decide)
    · cases htail
  | stopped token _ =>
    intro heq
    rcases List.append_eq_singleton_iff.1 heq with ⟨_, htail⟩ | ⟨_, htail⟩
    -- a call for help is no positional argument
    · have htoken : token = "-h" := (List.cons.inj htail).1
      rw [htoken] at h
      exact absurd h.2 (by decide)
    · cases htail

/-- The cursor starts the same in front of other arguments in the tail. -/
theorem start_replace {mode : Mode} {argv front : List String} {tail : Tail}
    (hrest : (Cursor.start mode argv).rest = front ++ tail.tokens) (left : List String) :
    Cursor.start mode ((Cursor.start mode argv).kept ++ (front ++ (tail.replace left).tokens)) =
      { Cursor.start mode argv with rest := front ++ (tail.replace left).tokens } := by
  unfold Cursor.start at *
  by_cases hkeeps : mode.keepFirst = true
  · cases argv with
    | nil =>
      -- without an argument to keep there is none in the tail either
      have hempty : front ++ tail.tokens = [] := by
        rw [← hrest]
        simp [hkeeps]
      have hnil := List.append_eq_nil_iff.1 hempty
      simp [hkeeps, hnil.1, Tail.replace_tokens_eq_nil hnil.2]
    | cons first more => simp [hkeeps]
  · simp [hkeeps]

/-- A parse that goes well does the same with any other arguments in the tail. -/
theorem parse_replace {argv : List String} {groups : List Group} {events ends : List Event}
    {tail : Tail} (hvalid : p.table.defect? = none)
    (hlone : ¬ (Cursor.start p.mode argv).LoneHelp)
    (hrest : (Cursor.start p.mode argv).rest = groups.flatMap Group.tokens ++ tail.tokens)
    (h : p.HandlesAll groups events) (hfits : tail.Fits p)
    (hhalts : ∀ left, p.Halts (tail.replace left).tokens ends
      (.complete (tail.replace left).residual))
    (left : List String) (slots : Slots) (out err : Sink) :
    let d : Division := ⟨(Cursor.start p.mode argv).kept, groups, tail.replace left⟩
    p.parse d.tokens slots out err =
      { outcome := .ok d.residual.length, argv := d.residual
        slots := slots.after (events ++ ends), out, err
        events := events ++ ends ++ [.finished d.residual.length] } := by
  intro d
  have hstart := start_replace hrest left
  have htokens : d.tokens = (Cursor.start p.mode argv).kept ++
      (groups.flatMap Group.tokens ++ (tail.replace left).tokens) := by
    rw [Division.tokens, List.append_assoc]
  have hlone' : ¬ (Cursor.start p.mode d.tokens).LoneHelp := by
    rw [htokens, hstart]
    intro hhelp
    have hfront : groups.flatMap Group.tokens ++ tail.tokens ≠ ["-h"] := by
      rw [← hrest]
      intro hargument
      exact hlone ⟨Cursor.handled_start _ _, hargument⟩
    exact replace_not_help hfits hfront hhelp.2
  have hrest' : (Cursor.start p.mode d.tokens).rest =
      groups.flatMap Group.tokens ++ (tail.replace left).tokens := by
    rw [htokens, hstart]
  have hkept : (Cursor.start p.mode d.tokens).kept = d.kept := by
    rw [htokens, hstart]
  rw [parse_of_course hvalid hlone' hrest' h (hhalts left), hkept]
  rfl

/-- The vector of a parse that goes well is divided, what remains is the kept argument, the
positional ones and the tail without a terminator, and with any other arguments in the tail the
parse does the same. -/
theorem exists_division {argv : List String} {slots : Slots} {out err : Sink} {n : Nat}
    (hok : (p.parse argv slots out err).outcome = .ok n) :
    ∃ d : Division, d.Fits p argv ∧ (p.parse argv slots out err).argv = d.residual ∧
      n = d.residual.length ∧
      ∀ left, p.parse (d.replace left).tokens slots out err =
        { p.parse argv slots out err with
          outcome := .ok (d.replace left).residual.length
          argv := (d.replace left).residual
          events := (p.parse argv slots out err).events.dropLast ++
            [.finished (d.replace left).residual.length] } := by
  obtain ⟨hvalid, hlone, groups, events, left, ends, residual, hrest, hgroups, hhalts⟩ :=
    course_of_ok hok
  have hparse := parse_of_course hvalid hlone hrest hgroups hhalts slots out err
  obtain ⟨tail, htokens, hresidual, hfits, hreplace⟩ := hhalts.exists_tail
  rw [← htokens] at hrest
  let d : Division := ⟨(Cursor.start p.mode argv).kept, groups, tail⟩
  have hd : d.Fits p argv := by
    refine ⟨?_, Cursor.kept_start p.mode argv, hgroups.fits, hfits⟩
    rw [Division.tokens, List.append_assoc, ← hrest]
    exact Cursor.kept_append_rest_start p.mode argv
  have hargv : (p.parse argv slots out err).argv = d.residual := by
    rw [hparse, Division.residual, hresidual]
  have hn : n = d.residual.length := by
    rw [← hargv]
    rw [hparse] at hok ⊢
    exact (Outcome.ok.inj hok).symm
  refine ⟨d, hd, hargv, hn, ?_⟩
  intro other
  have hother := parse_replace hvalid hlone hrest hgroups hfits hreplace other slots out err
  rw [hparse, List.dropLast_concat]
  exact hother

/-- A parser in front of a command, at whose name it stops. -/
def launcher : Parser :=
  { table := [{ kind := .flag, long := "paginate", short := some 'p' },
      { kind := .path, long := "directory", short := some 'C' }]
    mode := { keepFirst := true, stopAtPositional := true } }

/-- Two dashes that are taken as a value are no terminator. -/
theorem exists_division_of_dashes_as_value :
    (launcher.parse ["launch", "-C", "--", "-p", "log", "-p"] [.truth false, .text none] {}
        {}).outcome = .ok 3 ∧
      ∃ d : Division, d.Fits launcher ["launch", "-C", "--", "-p", "log", "-p"] ∧
        (launcher.parse ["launch", "-C", "--", "-p", "log", "-p"] [.truth false, .text none] {}
          {}).argv = d.residual ∧ 3 = d.residual.length := by
  have hok : (launcher.parse ["launch", "-C", "--", "-p", "log", "-p"] [.truth false, .text none]
      {} {}).outcome = .ok 3 := by decide +kernel
  obtain ⟨d, hfits, hargv, hlength, _⟩ := exists_division hok
  exact ⟨hok, d, hfits, hargv, hlength⟩

end Parser

end CommandLine
