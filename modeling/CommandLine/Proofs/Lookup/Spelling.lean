import CommandLine.Proofs.Lookup.Reading
import Mathlib.Data.List.Basic
import Mathlib.Data.List.Flatten
import Mathlib.Data.List.Nodup

/-!
# Abbreviations and the spellings of the options

The usage text shows an option under its *spellings* (`Table.spellings`): its long name, and the
opposite of that name where the option has one. A text that is not a whole spelling should stand
for the one spelling that it starts. `Table.resolvesBySpelling_iff` says exactly when the table
resolves it so: when no option misreads the text (`Table.Misreads`).
-/

namespace CommandLine

/-- A long name under which an option is shown, and the form in which it gives the option. -/
structure Spelling where
  name : List Char
  form : Form
deriving DecidableEq, Repr

namespace Table

/-- The spellings of an entry: its long name, and with a negation also `no-` and that name. The
negation of an option declared as `no-x` is `x`, as long as no option is declared as `x`. -/
def spellings (t : Table) (e : Entry) : List Spelling :=
  if e.isHeading || e.long == "" then []
  else if !e.negatable then [⟨e.long.toList, .long⟩]
  else
    match afterNo? e.long.toList with
    | none => [⟨e.long.toList, .long⟩, ⟨underNo e.long.toList, .negated⟩]
    | some positive =>
      if t.hasLong positive then [⟨e.long.toList, .long⟩]
      else [⟨e.long.toList, .long⟩, ⟨positive, .negated⟩]

/-- The spellings of an entry of which `text` is the start and not the whole. -/
def extensions (t : Table) (text : List Char) (e : Entry) : List Spelling :=
  (t.spellings e).filter fun s => text.isPrefixOf s.name && text != s.name

/-- What the spellings of an option make of a text: an abbreviation of each that it starts. -/
def spelledReadings (t : Table) (text : List Char) (e : Entry) : List Reading :=
  (t.extensions text e).map fun s => .abbreviation s.form

/-- Every pair of an entry and a spelling of it that `text` is the start of, in the order of the
table. -/
def candidates (t : Table) (text : List Char) : List Hit :=
  t.zipIdx.flatMap fun (e, i) => (t.spelledReadings text e).map (Hit.mk i e)

/-- The spellings that `text` is the start of, written out in the order of the table. -/
def candidateNames (t : Table) (text : List Char) : List String :=
  t.flatMap fun e => (t.extensions text e).map fun s => String.ofList s.name

/-- The text resolves by the spellings that it starts: to the only one, or else as unknown or as
ambiguous between all of them. -/
structure ResolvesBySpelling (t : Table) (text : List Char) : Prop where
  unknown : (t.resolve text).found = .unknown ↔ t.candidates text = []
  found : ∀ hit, (t.resolve text).found = .found hit ↔ t.candidates text = [hit]
  ambiguous : ∀ names,
    (∃ hits, (t.resolve text).found = .ambiguous hits ∧ hits.map Hit.name = names) ↔
      2 ≤ (t.candidates text).length ∧ names = t.candidateNames text

/-- The text is the start of a long option at most: no spelling, and not `no-` with a long name,
which is resolved so that it can be refused. -/
structure GivenInPart (t : Table) (text : List Char) : Prop where
  ne_nil : text ≠ []
  equals_notMem : '=' ∉ text
  ne_spelling : ∀ e ∈ t, ∀ s ∈ t.spellings e, text ≠ s.name
  ne_underNo : ∀ e ∈ t, e.IsNamed → text ≠ underNo e.long.toList

/-- The ways in which an option takes a text for something else than the spellings it starts. -/
inductive Misreads (t : Table) (text : List Char) (e : Entry) : Prop where
  /-- The text starts the name and its opposite, and is read as one of them only. -/
  | bothPolarities (s s' : Spelling) (hs : s ∈ t.spellings e) (hs' : s' ∈ t.spellings e)
      (hforms : s.form ≠ s'.form) (hstart : text <+: s.name) (hstart' : text <+: s'.name)
  /-- The text starts `no-no-x` for an option declared as `no-x`, and is read as `x`. -/
  | doubleNegation (positive : List Char) (hoption : e.isHeading = false)
      (hnegatable : e.negatable = true) (hlong : e.long.toList = underNo positive)
      (hstart : ¬ text <+: e.long.toList) (hdouble : text <+: underNo e.long.toList)
  /-- The text starts the opposite `x` of `no-x` where `x` itself starts `no-`, and is not
  read. -/
  | hiddenPositive (positive rest : List Char) (hoption : e.isHeading = false)
      (hnegatable : e.negatable = true) (hlong : e.long.toList = underNo positive)
      (hundeclared : t.hasLong positive = false) (htext : text = underNo rest)
      (hstart : ¬ text <+: e.long.toList) (hpositive : text <+: positive)

variable {t : Table} {text : List Char} {e : Entry} {r : Reading}

/-! ## The spellings of one option -/

theorem spellings_of_not_isNamed (h : ¬ e.IsNamed) : t.spellings e = [] := by
  unfold spellings
  rw [if_pos]
  rw [Entry.IsNamed, not_and_or, Bool.not_eq_false, not_not] at h
  simpa using h

theorem spellings_of_not_negatable (hnamed : e.IsNamed) (h : e.negatable = false) :
    t.spellings e = [⟨e.long.toList, .long⟩] := by
  simp [spellings, hnamed.1, hnamed.2, h]

theorem spellings_of_plain (hnamed : e.IsNamed) (h : e.negatable = true)
    (hplain : afterNo? e.long.toList = none) :
    t.spellings e = [⟨e.long.toList, .long⟩, ⟨underNo e.long.toList, .negated⟩] := by
  simp [spellings, hnamed.1, hnamed.2, h, hplain]

theorem spellings_of_declared {positive : List Char} (hnamed : e.IsNamed)
    (h : e.negatable = true) (hlong : e.long.toList = underNo positive)
    (hdeclared : t.hasLong positive = true) :
    t.spellings e = [⟨e.long.toList, .long⟩] := by
  simp [spellings, hnamed.1, hnamed.2, h, hlong, afterNo?_underNo, hdeclared]

theorem spellings_of_undeclared {positive : List Char} (hnamed : e.IsNamed)
    (h : e.negatable = true) (hlong : e.long.toList = underNo positive)
    (hundeclared : t.hasLong positive = false) :
    t.spellings e = [⟨e.long.toList, .long⟩, ⟨positive, .negated⟩] := by
  simp [spellings, hnamed.1, hnamed.2, h, hlong, afterNo?_underNo, hundeclared]

theorem long_mem_spellings (hnamed : e.IsNamed) : ⟨e.long.toList, .long⟩ ∈ t.spellings e := by
  unfold spellings
  rw [if_neg (by simp [hnamed.1, hnamed.2])]
  repeat' split
  all_goals simp

/-- A spelling is the long name, or its negation, or the opposite of a declared negation. -/
theorem spelling_cases {s : Spelling} (hs : s ∈ t.spellings e) :
    s = ⟨e.long.toList, .long⟩ ∨
      (e.negatable = true ∧ s = ⟨underNo e.long.toList, .negated⟩) ∨
      ∃ positive, e.negatable = true ∧ e.long.toList = underNo positive ∧
        t.hasLong positive = false ∧ s = ⟨positive, .negated⟩ := by
  unfold spellings at hs
  repeat' split at hs
  all_goals simp only [List.mem_cons, List.not_mem_nil, or_false] at hs
  · exact .inl hs
  · rename_i hnegatable _ _
    exact hs.imp_right fun h => .inl ⟨by simpa using hnegatable, h⟩
  · exact .inl hs
  · rename_i hnegatable _ positive hpositive hundeclared
    exact hs.imp_right fun h => .inr
      ⟨positive, by simpa using hnegatable, eq_underNo_of_afterNo? hpositive,
        by simpa using hundeclared, h⟩

/-- A spelling is the name that the option is invoked by in its form. -/
theorem invokedName_of_mem_spellings {s : Spelling} (hs : s ∈ t.spellings e) :
    e.invokedName (s.form == .negated) = String.ofList s.name := by
  unfold spellings at hs
  repeat' split at hs
  all_goals simp only [List.mem_cons, List.not_mem_nil, or_false] at hs
  · subst hs
    simp [Entry.invokedName]
  · rename_i hplain
    rcases hs with rfl | rfl
    · simp [Entry.invokedName]
    · apply String.toList_injective
      simp [Entry.invokedName, hplain, underNo]
  · subst hs
    simp [Entry.invokedName]
  · rename_i hpositive _
    rcases hs with rfl | rfl
    · simp [Entry.invokedName]
    · simp [Entry.invokedName, hpositive]

/-- The two spellings of an option give it in different forms. -/
theorem nodup_map_form_spellings : ((t.spellings e).map Spelling.form).Nodup := by
  unfold spellings
  repeat' split
  all_goals simp

/-! ## Readings of a text that is no whole spelling -/

theorem mem_extensions_iff {s : Spelling} (hne : ∀ s ∈ t.spellings e, text ≠ s.name) :
    s ∈ t.extensions text e ↔ s ∈ t.spellings e ∧ text <+: s.name := by
  simp only [extensions, List.mem_filter, Bool.and_eq_true, List.isPrefixOf_iff_prefix,
    bne_iff_ne, and_congr_right_iff]
  exact fun hs => and_iff_left (hne s hs)

/-- A text that is no whole spelling differs from the name it is held against and from the
negation of that name. -/
theorem GivenInPart.ne_facing {facing : List Char} {facesNegation : Bool}
    (h : t.GivenInPart text) (hmem : e ∈ t) (hnamed : e.IsNamed)
    (hfacing : t.facingName text e = (facing, facesNegation)) :
    text ≠ facing ∧ text ≠ underNo facing := by
  have hlong : text ≠ e.long.toList := h.ne_spelling e hmem _ (long_mem_spellings hnamed)
  rcases facingName_cases t text e with heq | ⟨positive, heq, hno, hnegatable, -, hundeclared⟩
  · obtain ⟨rfl, rfl⟩ := Prod.mk.inj (heq.symm.trans hfacing)
    exact ⟨hlong, h.ne_underNo e hmem hnamed⟩
  -- held against `x`, which is a spelling, and whose negation is the declared name
  · obtain ⟨rfl, rfl⟩ := Prod.mk.inj (heq.symm.trans hfacing)
    have hspellings := spellings_of_undeclared hnamed hnegatable hno hundeclared
    exact ⟨h.ne_spelling e hmem ⟨positive, .negated⟩ (by simp [hspellings]), hno ▸ hlong⟩

/-- An option reads the start of the name that it is held against, and failing that the start of
the negation of that name. -/
theorem GivenInPart.reading?_eq {facing : List Char} {facesNegation : Bool}
    (h : t.GivenInPart text) (hmem : e ∈ t) (hnamed : e.IsNamed)
    (hfacing : t.facingName text e = (facing, facesNegation)) :
    t.reading? text e =
      if text <+: facing then some (.abbreviation (Form.ofPolarity false facesNegation))
      else if e.negatable = true ∧ text <+: underNo facing then
        some (.abbreviation (Form.ofPolarity true facesNegation))
      else none := by
  obtain ⟨hne, hneNo⟩ := h.ne_facing hmem hnamed hfacing
  rw [reading?_of_facingName hnamed hfacing, if_neg hne]
  by_cases hstart : text <+: facing
  · rw [if_pos (by simpa using hstart), if_pos hstart]
  rw [if_neg (by simpa using hstart), if_neg hstart]
  -- the name does not start with the text, so that only its negation is left
  by_cases hnegatable : e.negatable = true
  · rw [if_neg (by simp [hnegatable])]
    by_cases hshort : text <+: ['n', 'o', '-']
    · rw [if_pos (by simpa using hshort),
        if_pos ⟨hnegatable, prefix_underNo_iff.2 (.inl hshort)⟩]
    rw [if_neg (by simpa using hshort)]
    cases hafter : afterNo? text with
    | none =>
      refine (if_neg ?_).symm
      intro hboth
      obtain ⟨-, hno⟩ := hboth
      rcases prefix_underNo_iff.1 hno with hshort' | ⟨rest, rfl, -⟩
      · exact hshort hshort'
      · simp [afterNo?_underNo] at hafter
    | some rest =>
      have htext := eq_underNo_of_afterNo? hafter
      have hrest : text <+: underNo facing ↔ rest <+: facing := by
        rw [htext]
        exact List.prefix_append_right_inj ['n', 'o', '-']
      have hneRest : rest ≠ facing := fun heq => hneNo (heq ▸ htext)
      simp [hneRest, hnegatable, hrest]
  · have hrefused : afterNo? text ≠ some facing := fun hafter =>
      hneNo (eq_underNo_of_afterNo? hafter)
    rw [if_pos (by simpa using hnegatable), if_neg hrefused]
    exact (if_neg fun hboth => hnegatable hboth.1).symm

/-- A text that starts both `no-no-name` and `name` starts `no-name` as well. -/
theorem prefix_underNo_of_prefix_twice {name : List Char}
    (htwice : text <+: underNo (underNo name)) (hname : text <+: name) :
    text <+: underNo name := by
  induction hlength : text.length using Nat.strongRecOn generalizing text name with
  | ind n ih =>
    rcases prefix_underNo_iff.1 htwice with hshort | ⟨rest, rfl, hrest⟩
    · exact prefix_underNo_iff.2 (.inl hshort)
    -- both `no-` fall away, from the text and from the name that it starts
    · obtain ⟨after, rfl⟩ := hname
      have hsmaller : rest.length < n := by simp [← hlength, underNo]; omega
      have hstart : rest <+: underNo (rest ++ after) :=
        ih rest.length hsmaller hrest (List.prefix_append rest after) rfl
      exact prefix_underNo_iff.2 (.inr ⟨rest, rfl, hstart⟩)

/-! ## Where readings and spellings agree -/

/-- A text that starts `no-` and is no start of a declared `no-x` cannot start both `no-no-x`
and `x`. -/
theorem not_prefix_positive_of_double {positive : List Char}
    (hlong : e.long.toList = underNo positive) (hstart : ¬ text <+: e.long.toList)
    (hdouble : text <+: underNo e.long.toList) : ¬ text <+: positive := by
  intro hpositive
  rw [hlong] at hstart hdouble
  exact hstart (prefix_underNo_of_prefix_twice hdouble hpositive)

theorem extensions_eq_filter (hne : ∀ s ∈ t.spellings e, text ≠ s.name) :
    t.extensions text e = (t.spellings e).filter fun s => text.isPrefixOf s.name := by
  refine List.filter_congr fun s hs => ?_
  simp [hne s hs]

/-- Only an option with a long name misreads a text. -/
theorem Misreads.isNamed (h : t.Misreads text e) : e.IsNamed := by
  have hlongNe {positive : List Char} (hlong : e.long.toList = underNo positive) : e.long ≠ "" := by
    intro hempty
    simp [hempty, underNo] at hlong
  cases h with
  | bothPolarities s _ hs =>
    by_contra hnot
    simp [spellings_of_not_isNamed hnot] at hs
  | doubleNegation _ hoption _ hlong => exact ⟨hoption, hlongNe hlong⟩
  | hiddenPositive _ _ hoption _ hlong => exact ⟨hoption, hlongNe hlong⟩

/-- Of two spellings of one option a text starts both, or it does not misread their polarity. -/
theorem prefix_of_bothPolarities {s₁ s₂ s s' : Spelling} (hpair : t.spellings e = [s₁, s₂])
    (hs : s ∈ t.spellings e) (hs' : s' ∈ t.spellings e) (hforms : s.form ≠ s'.form)
    (hstart : text <+: s.name) (hstart' : text <+: s'.name) :
    text <+: s₁.name ∧ text <+: s₂.name := by
  simp only [hpair, List.mem_cons, List.not_mem_nil, or_false] at hs hs'
  rcases hs with rfl | rfl <;> rcases hs' with rfl | rfl
  · exact absurd rfl hforms
  · exact ⟨hstart, hstart'⟩
  · exact ⟨hstart', hstart⟩
  · exact absurd rfl hforms

theorem not_misreads_of_not_negatable (hnamed : e.IsNamed) (h : e.negatable = false) :
    ¬ t.Misreads text e := by
  intro hmis
  cases hmis with
  | bothPolarities s s' hs hs' hforms =>
    simp only [spellings_of_not_negatable hnamed h, List.mem_singleton] at hs hs'
    exact hforms (hs ▸ hs' ▸ rfl)
  | doubleNegation _ _ hnegatable => simp [h] at hnegatable
  | hiddenPositive _ _ _ hnegatable => simp [h] at hnegatable

theorem misreads_iff_of_plain (hnamed : e.IsNamed) (h : e.negatable = true)
    (hplain : afterNo? e.long.toList = none) :
    t.Misreads text e ↔ text <+: e.long.toList ∧ text <+: underNo e.long.toList := by
  have hspellings := spellings_of_plain (t := t) hnamed h hplain
  constructor
  · intro hmis
    cases hmis with
    | bothPolarities s s' hs hs' hforms hstart hstart' =>
      exact prefix_of_bothPolarities hspellings hs hs' hforms hstart hstart'
    | doubleNegation _ _ _ hlong => simp [hlong, afterNo?_underNo] at hplain
    | hiddenPositive _ _ _ _ hlong => simp [hlong, afterNo?_underNo] at hplain
  · intro h
    obtain ⟨hlong, hno⟩ := h
    exact .bothPolarities _ _ (by simp [hspellings]; exact .inl rfl)
      (by simp [hspellings]; exact .inr rfl) (by simp) hlong hno

theorem misreads_iff_of_declared {positive : List Char} (hnamed : e.IsNamed)
    (h : e.negatable = true) (hlong : e.long.toList = underNo positive)
    (hdeclared : t.hasLong positive = true) :
    t.Misreads text e ↔ ¬ text <+: e.long.toList ∧ text <+: underNo e.long.toList := by
  constructor
  · intro hmis
    cases hmis with
    | bothPolarities s s' hs hs' hforms =>
      simp only [spellings_of_declared hnamed h hlong hdeclared, List.mem_singleton] at hs hs'
      exact absurd (hs ▸ hs' ▸ rfl) hforms
    | doubleNegation _ _ _ _ hstart hdouble => exact ⟨hstart, hdouble⟩
    | hiddenPositive positive' _ _ _ hlong' hundeclared =>
      obtain rfl : positive = positive' := by simpa [underNo] using hlong.symm.trans hlong'
      simp [hdeclared] at hundeclared
  · intro h'
    obtain ⟨hstart, hdouble⟩ := h'
    exact .doubleNegation positive hnamed.1 h hlong hstart hdouble

theorem misreads_iff_of_undeclared {positive : List Char} (hnamed : e.IsNamed)
    (h : e.negatable = true) (hlong : e.long.toList = underNo positive)
    (hundeclared : t.hasLong positive = false) :
    t.Misreads text e ↔
      text <+: e.long.toList ∧ text <+: positive ∨
      ¬ text <+: e.long.toList ∧
        (text <+: underNo e.long.toList ∨ (∃ rest, text = underNo rest) ∧ text <+: positive) := by
  have hspellings := spellings_of_undeclared hnamed h hlong hundeclared
  constructor
  · intro hmis
    cases hmis with
    | bothPolarities s s' hs hs' hforms hstart hstart' =>
      exact .inl (prefix_of_bothPolarities hspellings hs hs' hforms hstart hstart')
    | doubleNegation _ _ _ _ hstart hdouble => exact .inr ⟨hstart, .inl hdouble⟩
    | hiddenPositive positive' rest _ _ hlong' _ htext hstart hpositive =>
      obtain rfl : positive = positive' := by simpa [underNo] using hlong.symm.trans hlong'
      exact .inr ⟨hstart, .inr ⟨⟨rest, htext⟩, hpositive⟩⟩
  · intro h'
    rcases h' with ⟨hstart, hpositive⟩ | ⟨hstart, hdouble | ⟨⟨rest, htext⟩, hpositive⟩⟩
    · exact .bothPolarities ⟨e.long.toList, .long⟩ ⟨positive, .negated⟩ (by simp [hspellings])
        (by simp [hspellings]) (by simp) hstart hpositive
    · exact .doubleNegation positive hnamed.1 h hlong hstart hdouble
    · exact .hiddenPositive positive rest hnamed.1 h hlong hundeclared htext hstart hpositive

namespace GivenInPart

theorem spelledReadings_eq (h : t.GivenInPart text) (hmem : e ∈ t) :
    t.spelledReadings text e =
      ((t.spellings e).filter fun s => text.isPrefixOf s.name).map
        fun s => .abbreviation s.form := by
  rw [spelledReadings, extensions_eq_filter (h.ne_spelling e hmem)]

theorem toList_reading?_of_not_negatable (h : t.GivenInPart text) (hmem : e ∈ t)
    (hnamed : e.IsNamed) (hnegatable : e.negatable = false) :
    (t.reading? text e).toList = t.spelledReadings text e ↔ ¬ t.Misreads text e := by
  have hfacing : t.facingName text e = (e.long.toList, false) := by
    rcases facingName_cases t text e with hname | ⟨_, _, _, htrue, _⟩
    · exact hname
    · simp [hnegatable] at htrue
  rw [h.reading?_eq hmem hnamed hfacing, h.spelledReadings_eq hmem,
    spellings_of_not_negatable hnamed hnegatable,
    iff_true_right (not_misreads_of_not_negatable hnamed hnegatable)]
  by_cases hlong : text <+: e.long.toList <;> simp [hlong, hnegatable, Form.ofPolarity]

theorem toList_reading?_of_plain (h : t.GivenInPart text) (hmem : e ∈ t) (hnamed : e.IsNamed)
    (hnegatable : e.negatable = true) (hplain : afterNo? e.long.toList = none) :
    (t.reading? text e).toList = t.spelledReadings text e ↔ ¬ t.Misreads text e := by
  have hfacing : t.facingName text e = (e.long.toList, false) := by
    simp [facingName, Entry.facingName, hplain]
  rw [h.reading?_eq hmem hnamed hfacing, h.spelledReadings_eq hmem,
    spellings_of_plain hnamed hnegatable hplain, misreads_iff_of_plain hnamed hnegatable hplain]
  -- only a text that starts both is read differently from what it spells
  by_cases hlong : text <+: e.long.toList <;>
    by_cases hopposite : text <+: underNo e.long.toList <;>
      simp [hlong, hopposite, hnegatable, Form.ofPolarity]

theorem toList_reading?_of_declared {positive : List Char} (h : t.GivenInPart text)
    (hmem : e ∈ t) (hnamed : e.IsNamed) (hnegatable : e.negatable = true)
    (hlong : e.long.toList = underNo positive) (hdeclared : t.hasLong positive = true) :
    (t.reading? text e).toList = t.spelledReadings text e ↔ ¬ t.Misreads text e := by
  have hfacing : t.facingName text e = (e.long.toList, false) := by
    simp [facingName, Entry.facingName, hlong, afterNo?_underNo, hdeclared]
  rw [h.reading?_eq hmem hnamed hfacing, h.spelledReadings_eq hmem,
    spellings_of_declared hnamed hnegatable hlong hdeclared,
    misreads_iff_of_declared hnamed hnegatable hlong hdeclared]
  by_cases hstart : text <+: e.long.toList <;>
    by_cases hdouble : text <+: underNo e.long.toList <;>
      simp [hstart, hdouble, hnegatable, Form.ofPolarity]

theorem toList_reading?_of_undeclared {positive : List Char} (h : t.GivenInPart text)
    (hmem : e ∈ t) (hnamed : e.IsNamed) (hnegatable : e.negatable = true)
    (hlong : e.long.toList = underNo positive) (hundeclared : t.hasLong positive = false) :
    (t.reading? text e).toList = t.spelledReadings text e ↔ ¬ t.Misreads text e := by
  rw [h.spelledReadings_eq hmem, spellings_of_undeclared hnamed hnegatable hlong hundeclared,
    misreads_iff_of_undeclared hnamed hnegatable hlong hundeclared]
  cases htext : afterNo? text with
  | none =>
    -- held against `x`, whose negation is the declared name
    have hno (rest : List Char) : text ≠ underNo rest := by
      intro heq
      simp [heq, afterNo?_underNo] at htext
    have hshort (name : List Char) : text <+: underNo name ↔ text <+: ['n', 'o', '-'] := by
      simp [prefix_underNo_iff, hno]
    rw [h.reading?_eq hmem hnamed (facingName_undeclared hnegatable hlong hundeclared htext)]
    by_cases hpositive : text <+: positive <;>
      by_cases hstart : text <+: ['n', 'o', '-'] <;>
        simp [hlong, hshort, hno, hpositive, hstart, hnegatable, Form.ofPolarity]
  | some rest =>
    -- held against the declared name, and against that name under another `no-`
    have hrest := eq_underNo_of_afterNo? htext
    have hfacing : t.facingName text e = (e.long.toList, false) :=
      hrest ▸ facingName_underNo t rest e
    rw [h.reading?_eq hmem hnamed hfacing]
    by_cases hstart : text <+: e.long.toList
    · by_cases hpositive : text <+: positive <;> simp [hstart, hpositive, Form.ofPolarity]
    by_cases hdouble : text <+: underNo e.long.toList
    · have hpositive := not_prefix_positive_of_double hlong hstart hdouble
      simp [hstart, hdouble, hpositive, hnegatable, Form.ofPolarity]
    · have hno : ∃ rest, text = underNo rest := ⟨rest, hrest⟩
      by_cases hpositive : text <+: positive <;>
        simp [hstart, hdouble, hpositive, hno]

/-- What an option makes of a text is what its spellings make of it, exactly when it does not
misread the text. -/
theorem toList_reading?_eq_iff (h : t.GivenInPart text) (hmem : e ∈ t) :
    (t.reading? text e).toList = t.spelledReadings text e ↔ ¬ t.Misreads text e := by
  by_cases hnamed : e.IsNamed
  swap
  -- without a long name there is neither a reading nor a spelling
  · have hnone : t.reading? text e = none :=
      Option.eq_none_iff_forall_not_mem.2 fun r hr => hnamed (isNamed_of_reading? hr)
    have hno : ¬ t.Misreads text e := fun hmis => hnamed hmis.isNamed
    simp [hnone, hno, spelledReadings, extensions, spellings_of_not_isNamed hnamed]
  cases hnegatable : e.negatable with
  | false => exact h.toList_reading?_of_not_negatable hmem hnamed hnegatable
  | true =>
    cases hno : afterNo? e.long.toList with
    | none => exact h.toList_reading?_of_plain hmem hnamed hnegatable hno
    | some positive =>
      have hlong := eq_underNo_of_afterNo? hno
      cases hdeclared : t.hasLong positive with
      | true => exact h.toList_reading?_of_declared hmem hnamed hnegatable hlong hdeclared
      | false => exact h.toList_reading?_of_undeclared hmem hnamed hnegatable hlong hdeclared

/-! ## The choice among the abbreviations -/

/-- No option reads the text as a whole name. -/
theorem isWhole_eq_false (h : t.GivenInPart text) (hmem : e ∈ t)
    (hread : t.reading? text e = some r) : r.isWhole = false := by
  refine Bool.eq_false_iff.2 fun hwhole => ?_
  obtain ⟨hne, hneNo⟩ := h.ne_facing hmem (isNamed_of_reading? hread) rfl
  rcases eq_facingName_of_whole rfl hread hwhole with heq | heq
  · exact hne heq
  · exact hneNo heq

/-- Without a whole reading the number of abbreviations decides. -/
theorem found_resolve_eq (h : t.GivenInPart text) :
    (t.resolve text).found =
      match t.hits text with
      | [] => .unknown
      | [hit] => .found hit
      | hits => .ambiguous hits := by
  have hpart : ∀ hit ∈ t.hits text, hit.reading.isWhole = false := fun hit hhit => by
    obtain ⟨hget, hread⟩ := mem_hits_iff.1 hhit
    exact h.isWhole_eq_false (List.mem_of_getElem? hget) hread
  rw [resolve, splitAttached_of_notMem h.equals_notMem]
  simp only [lookup, List.isEmpty_eq_false_iff.2 h.ne_nil, Bool.false_eq_true, if_false]
  exact Lookup.ofHits_of_not_whole hpart

end GivenInPart

/-! ## The spellings of the whole table -/

theorem hits_eq_flatMap (t : Table) (text : List Char) :
    t.hits text = t.zipIdx.flatMap fun (e, i) => (t.reading? text e).toList.map (Hit.mk i e) := by
  rw [hits, List.filterMap_eq_flatMap_toList]
  apply List.flatMap_congr
  intro x _
  obtain ⟨e, i⟩ := x
  dsimp only
  cases t.reading? text e <;> rfl

theorem mem_candidates_iff {hit : Hit} :
    hit ∈ t.candidates text ↔
      t[hit.index]? = some hit.entry ∧ hit.reading ∈ t.spelledReadings text hit.entry := by
  simp only [candidates, List.mem_flatMap, List.mem_map, Prod.exists, List.mem_zipIdx_iff_getElem?]
  constructor
  · intro h
    obtain ⟨e, i, hget, r, hr, rfl⟩ := h
    exact ⟨hget, hr⟩
  · intro h
    obtain ⟨hget, hr⟩ := h
    exact ⟨hit.entry, hit.index, hget, hit.reading, hr, rfl⟩

/-- Each candidate is listed by its spelling. -/
theorem map_name_candidates (t : Table) (text : List Char) :
    (t.candidates text).map Hit.name = t.candidateNames text := by
  have hname (e : Entry) (i : Nat) : ((t.spelledReadings text e).map (Hit.mk i e)).map Hit.name =
      (t.extensions text e).map fun s => String.ofList s.name := by
    rw [spelledReadings, List.map_map, List.map_map]
    refine List.map_congr_left fun s hs => ?_
    exact invokedName_of_mem_spellings (List.mem_of_mem_filter hs)
  calc (t.candidates text).map Hit.name
      = t.zipIdx.flatMap fun (e, _) =>
          (t.extensions text e).map fun s => String.ofList s.name := by
        rw [candidates, List.map_flatMap]
        exact List.flatMap_congr fun (e, i) _ => hname e i
    _ = (t.zipIdx.map Prod.fst).flatMap fun e =>
          (t.extensions text e).map fun s => String.ofList s.name := by
        rw [List.flatMap_map]
    _ = t.candidateNames text := by rw [List.zipIdx_map_fst, candidateNames]

theorem prefix_of_mem_candidateNames {name : String} (h : name ∈ t.candidateNames text) :
    text <+: name.toList := by
  simp only [candidateNames, List.mem_flatMap, List.mem_map] at h
  obtain ⟨e, -, s, hs, rfl⟩ := h
  have hstart := (List.mem_filter.1 hs).2
  simp only [Bool.and_eq_true, List.isPrefixOf_iff_prefix] at hstart
  simpa using hstart.1

theorem GivenInPart.mem_spelledReadings (h : t.GivenInPart text) (hmem : e ∈ t) {s : Spelling}
    (hs : s ∈ t.spellings e) (hstart : text <+: s.name) :
    .abbreviation s.form ∈ t.spelledReadings text e :=
  List.mem_map_of_mem ((mem_extensions_iff (h.ne_spelling e hmem)).2 ⟨hs, hstart⟩)

/-- The negation of the name that an option is held against is a spelling of the option, if the
text starts the name by which the option is then invoked. -/
theorem GivenInPart.mem_spelledReadings_negated (h : t.GivenInPart text) (hmem : e ∈ t)
    (hnamed : e.IsNamed) (hnegatable : e.negatable = true) (hstart : ¬ text <+: e.long.toList)
    (hdouble : text <+: underNo e.long.toList) (hname : text <+: (e.invokedName true).toList) :
    .abbreviation .negated ∈ t.spelledReadings text e := by
  cases hno : afterNo? e.long.toList with
  | none =>
    have hspellings := spellings_of_plain (t := t) hnamed hnegatable hno
    exact h.mem_spelledReadings hmem (s := ⟨underNo e.long.toList, .negated⟩)
      (by simp [hspellings]) hdouble
  | some positive =>
    -- the name is `x`, which cannot start with a text that starts `no-no-x`
    have hpositive : text <+: positive := by simpa [Entry.invokedName, hno] using hname
    exact absurd hpositive
      (not_prefix_positive_of_double (eq_underNo_of_afterNo? hno) hstart hdouble)

/-- A hit whose own name starts with the text is one of the candidates. -/
theorem GivenInPart.mem_candidates_of_prefix_name {hit : Hit} (h : t.GivenInPart text)
    (hhit : hit ∈ t.hits text) (hname : text <+: hit.name.toList) : hit ∈ t.candidates text := by
  obtain ⟨hget, hread⟩ := mem_hits_iff.1 hhit
  have hmem := List.mem_of_getElem? hget
  have hnamed := isNamed_of_reading? hread
  have hlongMem := long_mem_spellings (t := t) hnamed
  rw [mem_candidates_iff]
  refine ⟨hget, ?_⟩
  rcases facingName_cases t text hit.entry with hfacing | ⟨positive, hfacing, hlong, hneg, -, hno⟩
  · rw [h.reading?_eq hmem hnamed hfacing] at hread
    split at hread
    · rename_i hstart
      rw [← Option.some.inj hread]
      exact h.mem_spelledReadings hmem hlongMem hstart
    · rename_i hstart
      split at hread
      · rename_i hboth
        have hform : hit.reading = .abbreviation .negated := (Option.some.inj hread).symm
        rw [hform]
        refine h.mem_spelledReadings_negated hmem hnamed hboth.1 hstart hboth.2 ?_
        simpa [Hit.name, hform, Reading.form] using hname
      · cases hread
  · have hspellings := spellings_of_undeclared hnamed hneg hlong hno
    rw [h.reading?_eq hmem hnamed hfacing] at hread
    split at hread
    · rename_i hstart
      rw [← Option.some.inj hread]
      exact h.mem_spelledReadings hmem (s := ⟨positive, .negated⟩) (by simp [hspellings]) hstart
    · split at hread
      · rename_i hboth
        rw [← Option.some.inj hread]
        exact h.mem_spelledReadings hmem hlongMem (hlong ▸ hboth.2)
      · cases hread

theorem nodup_spelledReadings : (t.spelledReadings text e).Nodup := by
  have hforms : ((t.extensions text e).map Spelling.form).Nodup :=
    nodup_map_form_spellings.sublist (List.filter_sublist.map Spelling.form)
  have hreadings : t.spelledReadings text e =
      ((t.extensions text e).map Spelling.form).map .abbreviation := by
    rw [spelledReadings, List.map_map]
    rfl
  rw [hreadings]
  exact hforms.map (f := Reading.abbreviation) fun _ _ heq => Reading.abbreviation.inj heq

/-- The hits are the candidates exactly when no option misreads the text. -/
theorem GivenInPart.hits_eq_candidates_iff (h : t.GivenInPart text) :
    t.hits text = t.candidates text ↔ ∀ e ∈ t, ¬ t.Misreads text e := by
  constructor
  -- the hits of one entry are its reading, and its candidates what it spells
  · intro heq e hmem
    obtain ⟨i, hget⟩ := List.getElem?_of_mem hmem
    have hsame (r : Reading) : r ∈ (t.reading? text e).toList ↔ r ∈ t.spelledReadings text e := by
      have hhit : (⟨i, e, r⟩ : Hit) ∈ t.hits text ↔ ⟨i, e, r⟩ ∈ t.candidates text := by rw [heq]
      simpa [mem_hits_iff, mem_candidates_iff, hget] using hhit
    have hperm : (t.reading? text e).toList.Perm (t.spelledReadings text e) := by
      refine (List.perm_ext_iff_of_nodup ?_ nodup_spelledReadings).2 hsame
      cases t.reading? text e <;> simp
    refine (h.toList_reading?_eq_iff hmem).1 ?_
    cases hread : t.reading? text e with
    | none => simpa [hread] using hperm
    | some r => simpa [hread] using hperm
  · intro hclear
    rw [hits_eq_flatMap, candidates]
    refine List.flatMap_congr fun (e, i) hmem => ?_
    have hget := List.mem_zipIdx_iff_getElem?.1 hmem
    have hmem' := List.mem_of_getElem? hget
    dsimp only
    rw [(h.toList_reading?_eq_iff hmem').2 (hclear e hmem')]

/-- Hits that are named by spellings which the text starts are all among the candidates. -/
theorem GivenInPart.hits_sublist_candidates (h : t.GivenInPart text)
    (hnames : ∀ hit ∈ t.hits text, text <+: hit.name.toList) :
    (t.hits text).Sublist (t.candidates text) := by
  rw [hits_eq_flatMap, candidates]
  refine List.Sublist.flatMap_right _ fun (e, i) hmem => ?_
  refine List.Sublist.map _ ?_
  cases hread : t.reading? text e with
  | none => simp
  | some r =>
    have hget := List.mem_zipIdx_iff_getElem?.1 hmem
    have hhit : (⟨i, e, r⟩ : Hit) ∈ t.hits text := mem_hits_iff.2 ⟨hget, hread⟩
    have hcandidate := h.mem_candidates_of_prefix_name hhit (hnames _ hhit)
    simpa using (mem_candidates_iff.1 hcandidate).2

/-- A text that is no whole name resolves by the spellings that it starts, exactly when no option
of the table misreads it. -/
theorem resolvesBySpelling_iff (h : t.GivenInPart text) :
    t.ResolvesBySpelling text ↔ ∀ e ∈ t, ¬ t.Misreads text e := by
  rw [← h.hits_eq_candidates_iff]
  constructor
  · intro hspelled
    have hfound := h.found_resolve_eq
    split at hfound
    · rename_i hnil
      rw [hnil, hspelled.unknown.1 hfound]
    · rename_i hit hone
      rw [hone, (hspelled.found hit).1 hfound]
    -- as many hits as candidates, and all of them among the candidates
    · obtain ⟨-, hnames⟩ := (hspelled.ambiguous _).1 ⟨_, hfound, rfl⟩
      have hstarts : ∀ hit ∈ t.hits text, text <+: hit.name.toList := fun hit hhit =>
        prefix_of_mem_candidateNames (hnames ▸ List.mem_map_of_mem hhit)
      have hlength : (t.hits text).length = (t.candidates text).length := by
        rw [← map_name_candidates] at hnames
        simpa using congrArg List.length hnames
      exact (h.hits_sublist_candidates hstarts).eq_of_length hlength
  · intro heq
    have hfound := h.found_resolve_eq
    rw [heq] at hfound
    have hnames := map_name_candidates t text
    rcases hcandidates : t.candidates text with _ | ⟨hit, _ | ⟨hit', more⟩⟩
    all_goals
      rw [hcandidates] at hfound hnames
      refine ⟨?_, fun hit => ?_, fun names => ?_⟩
      · simp [hfound, hcandidates]
      · simp [hfound, hcandidates]
      · simp [hfound, hcandidates, ← hnames, eq_comm]

/-- Options with plain, opposite and declared negative names. -/
def polarities : Table :=
  [{ kind := .text, long := "name" },
   { kind := .flag, long := "confirm", negatable := true },
   { kind := .flag, long := "no-pager", negatable := true },
   { kind := .switch 1, long := "no-name", negatable := true }]

/-- `n` is the start of a name, of an opposite and of two declared negations. -/
theorem resolvesBySpelling_across_options :
    polarities.GivenInPart ['n'] ∧ polarities.ResolvesBySpelling ['n'] ∧
      polarities.candidateNames ['n'] = ["name", "no-confirm", "no-pager", "no-name"] := by
  have hpart : polarities.GivenInPart ['n'] :=
    ⟨by decide, by decide, by decide +kernel, by decide +kernel⟩
  have hagree : ∀ e ∈ polarities,
      (polarities.reading? ['n'] e).toList = polarities.spelledReadings ['n'] e := by
    decide +kernel
  exact ⟨hpart,
    (resolvesBySpelling_iff hpart).2 fun e he => (hpart.toList_reading?_eq_iff he).1 (hagree e he),
    by decide +kernel⟩

/-- With a negatable `name` alone, `n` starts both `name` and `no-name` and is taken for `name`.
With a negatable `no-pager` alone, `no-n` starts neither spelling and is taken for `pager`. -/
theorem not_resolvesBySpelling_of_one_option :
    let named : Entry := { kind := .flag, long := "name", negatable := true }
    let paged : Entry := { kind := .flag, long := "no-pager", negatable := true }
    (Table.GivenInPart [named] ['n'] ∧ ¬ Table.ResolvesBySpelling [named] ['n'] ∧
      Table.candidateNames [named] ['n'] = ["name", "no-name"] ∧
      (Table.resolve [named] ['n']).found = .found ⟨0, named, .abbreviation .long⟩) ∧
    (Table.GivenInPart [paged] ['n', 'o', '-', 'n'] ∧
      ¬ Table.ResolvesBySpelling [paged] ['n', 'o', '-', 'n'] ∧
      Table.candidateNames [paged] ['n', 'o', '-', 'n'] = [] ∧
      (Table.resolve [paged] ['n', 'o', '-', 'n']).found =
        .found ⟨0, paged, .abbreviation .negated⟩) := by
  refine ⟨⟨⟨by decide, by decide, by decide +kernel, by decide +kernel⟩, ?_, by decide +kernel,
      by decide +kernel⟩,
    ⟨⟨by decide, by decide, by decide +kernel, by decide +kernel⟩, ?_, by decide +kernel,
      by decide +kernel⟩⟩
  · intro hspelled
    have hone := (hspelled.found ⟨0, { kind := .flag, long := "name", negatable := true },
      .abbreviation .long⟩).1 (by decide +kernel)
    revert hone
    decide +kernel
  · intro hspelled
    have hnone := hspelled.unknown.2 (by decide +kernel)
    revert hnone
    decide +kernel

end Table

end CommandLine
