import CommandLine.Proofs.Lookup.Reordering
import CommandLine.Proofs.Parser.Simulation
import CommandLine.Proofs.Parser.Streams
import Mathlib.Logic.Equiv.Basic

/-!
# Options declared in another order

The order of declaration does not matter to parsing. Parsers whose tables hold the same options in
another order take every argument alike, where no text names two options in full, and so come to
the same over any vector (`Parser.parse_reordered`). Only the candidates of an ambiguous name are
listed in the order of the table.
-/

namespace CommandLine

/-! ## What differs -/

/-- The same fault, with the candidates of an ambiguous name in any order. -/
inductive Fault.SameButOrder : Fault → Fault → Prop
  | same (f : Fault) : SameButOrder f f
  | ambiguous (given : String) {names names' : List String} (h : names.Perm names') :
      SameButOrder (.ambiguous given names) (.ambiguous given names')

/-- The same refusal, but for the order of candidates. -/
inductive Refusal.SameButOrder : Refusal → Refusal → Prop
  | help : SameButOrder .help .help
  | fault {f f' : Fault} (h : f.SameButOrder f') : SameButOrder (.fault f) (.fault f')

/-- The same outcome, but for the order of candidates. -/
inductive Outcome.SameButOrder : Outcome → Outcome → Prop
  | ok (count : ℕ) : SameButOrder (.ok count) (.ok count)
  | help : SameButOrder .help .help
  | fatal {f f' : Fault} (h : f.SameButOrder f') : SameButOrder (.fatal f) (.fatal f')

/-- A parse over another order of the slots comes to the same: it ends alike, leaves the same
vector, and the same value in the slot of every option. -/
structure Parsed.SameButOrder (r r' : Parsed) (σ : Equiv.Perm ℕ) : Prop where
  outcome : r.outcome.SameButOrder r'.outcome
  argv : r.argv = r'.argv
  slots : Reordered σ r.slots r'.slots

/-- The assignment to the option at the place where `σ` moves it. -/
def Assignment.moved (σ : Equiv.Perm ℕ) (a : Assignment) : Assignment :=
  { a with index := σ a.index }

/-- The option at the place where `σ` moves it is mentioned. -/
def Mention.moved (σ : Equiv.Perm ℕ) (m : Mention) : Mention := { m with index := σ m.index }

/-- Options are mentioned and assigned at the places where `σ` moves them. -/
def Likeness.moved (σ : Equiv.Perm ℕ) : Likeness where
  mention m m' := m = m'.moved σ
  refusal := Refusal.SameButOrder
  assignment a a' := a = a'.moved σ

/-! ## One argument -/

namespace Table

variable {t t' : Table} {σ : Equiv.Perm ℕ}

/-- Two dashes mention the same option, or the same options are candidates. -/
theorem longPhrase_reordered (hapart : t.SpelledApart) (h : Reordered σ t t')
    (given : List Char) :
    (Likeness.moved σ).Words (.options (t.longPhrase given)) (.options (t'.longPhrase given)) := by
  have hmoves := lookup_reordered hapart h (splitAttached given).1
  unfold longPhrase resolve
  dsimp only
  generalize t.lookup (splitAttached given).1 = found at hmoves
  generalize t'.lookup (splitAttached given).1 = found' at hmoves
  cases hmoves with
  | unknown => exact .options .nil (.refused (.fault (.same _)))
  | found hit => exact .options (.cons rfl .nil) .settled
  | @ambiguous hits hits' hperm =>
    -- the name of a candidate does not tell its place
    have hnames : (hits.map Hit.name).Perm (hits'.map Hit.name) := by
      have hmapped := hperm.map Hit.name
      rw [List.map_map] at hmapped
      exact hmapped
    exact .options .nil (.refused (.fault (.ambiguous _ hnames)))

/-- A short name mentions the same option. -/
theorem found_reordered (hvalid : t.defect? = none) (h : Reordered σ t t') (name : Char) :
    Option.Rel (Likeness.moved σ).Found (t.findShort? name) (t'.findShort? name) := by
  rw [findShort?_reordered hvalid h name]
  cases t'.findShort? name with
  | none => exact .none
  | some found => exact .some ⟨rfl, fun _ => rfl⟩

theorem word_reordered (hvalid : t.defect? = none) (hapart : t.SpelledApart)
    (h : Reordered σ t t') (token : String) :
    (Likeness.moved σ).Words (t.word token) (t'.word token) := by
  refine word_alike ?_ (longPhrase_reordered hapart h) (found_reordered hvalid h) token
  intro r
  cases r with
  | help => exact .help
  | fault f => exact .fault (.same f)

end Table

/-! ## Whole vectors -/

/-- Corresponding assignments leave the slots in their orders. -/
theorem Reordered.foldl_apply {σ : Equiv.Perm ℕ} {assignments assignments' : List Assignment}
    (h : List.Forall₂ (Likeness.moved σ).assignment assignments assignments')
    {slots slots' : Slots} (hslots : Reordered σ slots slots') :
    Reordered σ (assignments.foldl Assignment.apply slots)
      (assignments'.foldl Assignment.apply slots') := by
  induction h generalizing slots slots' with
  | nil => exact hslots
  | @cons a a' more more' ha hmore ih =>
    obtain rfl : a = a'.moved σ := ha
    exact ih (hslots.set a'.index a'.content)

/-- Runs that correspond come to outcomes that do. -/
theorem Run.Resembles.outcome {r r' : Run} {σ : Equiv.Perm ℕ}
    (h : r.Resembles r' (.moved σ)) : r.outcome.SameButOrder r'.outcome := by
  unfold Run.outcome
  rcases h.ending with ⟨hcomplete, hcomplete'⟩ | ⟨c, c', hlike, hrefused, hrefused'⟩
  · rw [hcomplete, hcomplete', h.argv]
    exact .ok _
  · rw [hrefused, hrefused']
    cases hlike with
    | help => exact .help
    | fault hf => exact .fatal hf

namespace Parser

variable {p : Parser} {t' : Table} {σ : Equiv.Perm ℕ}

theorem resembles_reordered (hvalid : p.table.defect? = none) (hapart : p.table.SpelledApart)
    (h : Reordered σ p.table t') :
    p.Resembles { p with table := t' } (.moved σ) where
  mode := rfl
  word := p.table.word_reordered hvalid hapart h
  wants := by
    rintro m m' rfl
    rfl
  value := by
    rintro m m' stored rfl hvalue
    exact ⟨stored, hvalue, rfl⟩
  unfit := by
    rintro m m' f rfl hvalue
    exact ⟨f, hvalue, .fault (.same f)⟩
  next := by
    rintro m m' rfl _ value
    rfl
  missing := by
    rintro m m' rfl _
    exact .fault (.same _)
  help := .help

/-- The same options in another order, with their slots, parse every vector alike, if no text
names two of them in full. -/
theorem parse_reordered (hvalid : p.table.defect? = none) (hapart : p.table.SpelledApart)
    (htable : Reordered σ p.table t') {slots slots' : Slots} (hslots : Reordered σ slots slots')
    (argv : List String) :
    (p.parse argv slots {} {}).SameButOrder
      ({ p with table := t' }.parse argv slots' {} {}) σ := by
  have hrun := (resembles_reordered hvalid hapart htable).run argv
  rw [parse_eq_parsed hvalid,
    parse_eq_parsed (p := { p with table := t' }) (Table.defect?_reordered hvalid htable)]
  refine ⟨?_, ?_, ?_⟩
  · rw [outcome_parsed_run, outcome_parsed_run]
    exact hrun.outcome
  · rw [Run.argv_parsed, Run.argv_parsed]
    exact hrun.argv
  · rw [Run.slots_parsed, Run.slots_parsed]
    exact hslots.foldl_apply hrun.events

/-- A parser with three options that start alike, and a heading among them. -/
def reporter : Parser where
  table :=
    [{ kind := .flag, long := "verbose", short := some 'v', negatable := true },
     { kind := .heading, help := "Output" },
     { kind := .path, long := "no-version", negatable := true },
     { kind := .text, long := "verdict", short := some 'o' }]
  directory := some "/tmp"

theorem reordered_swap {α : Type} (a b c : α) (more : List α) :
    Reordered (Equiv.swap 0 2) (a :: b :: c :: more) (c :: b :: a :: more) := by
  intro i
  match i with
  | 0 => rfl
  | 1 => rfl
  | 2 => rfl
  | n + 3 =>
    rw [Equiv.swap_apply_of_ne_of_ne (by omega) (by omega)]
    rfl

/-- With `no-version` in front of `verbose` the same options are set, and the same names are
listed in another order. -/
theorem parse_reordered_among_candidates :
    let argv := ["-v", "--no-version=notes", "--ver", "-x"]
    let parsed := reporter.parse argv [.truth false, .nothing, .text none, .text none] {} {}
    let parsed' :=
      { reporter with
        table :=
          [{ kind := .path, long := "no-version", negatable := true },
           { kind := .heading, help := "Output" },
           { kind := .flag, long := "verbose", short := some 'v', negatable := true },
           { kind := .text, long := "verdict", short := some 'o' }] }.parse argv
        [.text none, .nothing, .truth false, .text none] {} {}
    parsed.outcome = .fatal (.ambiguous "ver" ["verbose", "version", "verdict"]) ∧
      parsed'.outcome = .fatal (.ambiguous "ver" ["version", "verbose", "verdict"]) ∧
      parsed'.slots = [.text (some "/tmp/notes"), .nothing, .truth true, .text none] ∧
      parsed.SameButOrder parsed' (Equiv.swap 0 2) := by
  intro argv parsed parsed'
  refine ⟨by decide +kernel, by decide +kernel, by decide +kernel, ?_⟩
  exact parse_reordered (by decide +kernel) (by decide +kernel) (reordered_swap _ _ _ _)
    (reordered_swap _ _ _ _) argv

end Parser

end CommandLine
