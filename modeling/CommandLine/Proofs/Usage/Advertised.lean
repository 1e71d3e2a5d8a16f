import CommandLine.Proofs.Lookup.Spelling
import CommandLine.Proofs.Parser.GivenValue
import CommandLine.Proofs.Table.WellNamed

/-!
# What the usage text promises

The text of an option begins with its own line, which holds `--name` or `--[no-]name`, and a
negation may have a line `--name` for its opposite behind it. These lines derive the negation of a
name in their own way. Where the names of a table do not collide (`Table.NamesClear`), every
spelling that they hold finds the option again in the form that it stands for, and the opposite of
a declared negation is printed exactly where it is understood (`Parser.advertises`).
-/

namespace CommandLine

/-! ## What is printed -/

/-- A line with `left` in its left column and `help` in the help column. -/
def usageLine (l : Layout) (left help : String) : String :=
  left ++ helpColumn l help left.length ++ "\n"

/-- What stands before the long name of an option. -/
def Entry.lead (e : Entry) : String :=
  match e.short with
  | some c => "    -" ++ c.toString ++ ", "
  | none => "    "

/-- How the own line of an option writes its long name, and the spellings that this stands for. -/
inductive Entry.Prints (e : Entry) : String → List Spelling → Prop
  /-- The name has no negation, or is one. -/
  | alone (h : e.negatable = false ∨ ∃ positive, e.long.toList = underNo positive) :
    Prints e ("--" ++ e.long) [⟨e.long.toList, .long⟩]
  | withNegation (hneg : e.negatable = true)
    (hplain : ∀ positive, e.long.toList ≠ underNo positive) :
    Prints e ("--[no-]" ++ e.long) [⟨e.long.toList, .long⟩, ⟨underNo e.long.toList, .negated⟩]

/-- The line of the opposite of `no-name`. -/
def oppositeLine (l : Layout) (name : List Char) : String :=
  usageLine l ("    --" ++ String.ofList name) ("opposite of --no-" ++ String.ofList name)

namespace Entry

variable {e : Entry}

theorem opposite?_eq_some_iff {positive : List Char} :
    e.opposite? = some positive ↔ e.negatable = true ∧ e.long.toList = underNo positive := by
  unfold opposite?
  cases e.negatable <;> simp [afterNo?_eq_some_iff, underNo]

theorem left_row {f : LongForm} (h : e.longForm? = some f) :
    e.row.left = e.lead ++ f.text ++ e.argument := by
  have hdash : "    -" = "    " ++ "-" := rfl
  unfold Row.left row lead
  rw [h, hdash]
  cases e.short with
  | none => simp
  | some c =>
    simp only [Option.map_some, Option.toList_some, List.singleton_append,
      String.intercalate_cons_cons, String.intercalate_singleton, String.append_assoc]

/-- The own line holds the long name in one of two ways. -/
theorem exists_prints (hnamed : e.IsNamed) :
    ∃ text spellings, e.Prints text spellings ∧ e.row.left = e.lead ++ text ++ e.argument := by
  have hlong : (e.long == "") = false := by simpa using hnamed.2
  by_cases hboth : e.negatable = true ∧ afterNo? e.long.toList = none
  · have hform : e.longForm? = some (.negatable e.long) := by
      simp [longForm?, hlong, hboth.1, hboth.2]
    have hplain : ∀ positive, e.long.toList ≠ underNo positive := by
      intro positive hno
      simp [hno, afterNo?_underNo] at hboth
    exact ⟨_, _, .withNegation hboth.1 hplain, left_row hform⟩
  · have hform : e.longForm? = some (.plain e.long) := by
      simpa [longForm?, hlong] using hboth
    have halone : e.negatable = false ∨ ∃ positive, e.long.toList = underNo positive := by
      cases hneg : e.negatable with
      | false => exact .inl rfl
      | true =>
        obtain ⟨positive, hafter⟩ := Option.ne_none_iff_exists'.1 fun h => hboth ⟨hneg, h⟩
        exact .inr ⟨positive, eq_underNo_of_afterNo? hafter⟩
    exact ⟨_, _, .alone halone, left_row hform⟩

end Entry

theorem render_oppositeRow (l : Layout) (name : List Char) :
    (oppositeRow name).render l = oppositeLine l name := by
  have hdashes : "    --" = "    " ++ "--" := rfl
  have hleft : (oppositeRow name).left = "    --" ++ String.ofList name := by
    rw [hdashes, String.append_assoc]
    simp [Row.left, oppositeRow, LongForm.text]
  rw [Row.render, hleft]
  rfl

namespace Table

variable {t : Table} {text positive : List Char} {i j : Nat} {e o : Entry} {r : Reading}

/-- The opposite that has a line behind that of the option `e`. -/
def opposite? (t : Table) (e : Entry) : Option (List Char) :=
  e.opposite?.filter fun positive => !t.hasLong positive

theorem opposite?_eq_some_iff :
    t.opposite? e = some positive ↔
      e.negatable = true ∧ e.long.toList = underNo positive ∧ t.hasLong positive = false := by
  simp [opposite?, Entry.opposite?_eq_some_iff, and_assoc]

theorem rows_eq (t : Table) (e : Entry) :
    t.rows e = e.row :: ((t.opposite? e).map oppositeRow).toList := by
  unfold rows Entry.rows opposite?
  cases e.opposite? with
  | none => rfl
  | some name => cases hdeclared : t.hasLong name <;> simp [Option.filter, hdeclared]

/-- The text of an option is its own line, and behind it the line of its opposite. -/
theorem entryText_eq (hoption : e.isHeading = false) (l : Layout) :
    t.entryText l e =
      usageLine l e.row.left e.help ++ (t.opposite? e).elim "" (oppositeLine l) := by
  have hown : e.row.render l = usageLine l e.row.left e.help := rfl
  rw [entryText, if_neg (by simp [hoption]), rows_eq, List.map_cons, String.join_cons, hown]
  cases t.opposite? e with
  | none => simp
  | some name => simp [render_oppositeRow]

/-- What the own line of an option holds are spellings of the option. -/
theorem mem_spellings_of_prints {name : String} {spellings : List Spelling} (hnamed : e.IsNamed)
    (h : e.Prints name spellings) {s : Spelling} (hs : s ∈ spellings) : s ∈ t.spellings e := by
  cases h with
  | alone =>
    obtain rfl := List.mem_singleton.1 hs
    exact long_mem_spellings hnamed
  | withNegation hneg hplain =>
    have hno : afterNo? e.long.toList = none :=
      Option.eq_none_iff_forall_ne_some.2 fun positive hafter =>
        hplain positive (eq_underNo_of_afterNo? hafter)
    rw [spellings_of_plain hnamed hneg hno]
    exact hs

theorem mem_spellings_of_opposite? (hnamed : e.IsNamed) (h : t.opposite? e = some positive) :
    ⟨positive, .negated⟩ ∈ t.spellings e := by
  obtain ⟨hneg, hlong, hundeclared⟩ := opposite?_eq_some_iff.1 h
  simp [spellings_of_undeclared hnamed hneg hlong hundeclared]

/-- The long names of the options do not collide. -/
@[mk_iff]
structure NamesClear (t : Table) : Prop where
  distinct : t.Pairwise fun e o => e.IsNamed → o.IsNamed → e.long ≠ o.long
  notReserved : ∀ e ∈ t, e.IsNamed → e.long ∉ ["help", "no-help", "no-"]
  notDouble : ∀ e ∈ t, e.IsNamed → ¬ "no-no-".toList <+: e.long.toList
  /-- No negatable `x` is declared together with `no-x`. -/
  notNegatable : ∀ e ∈ t, ∀ o ∈ t, e.IsNamed → o.IsNamed → e.negatable = true →
    o.long.toList ≠ underNo e.long.toList
  /-- An `x` that is not negatable comes after `no-x`. -/
  after : t.Pairwise fun e o => e.IsNamed → o.IsNamed → e.negatable = false →
    o.long.toList ≠ underNo e.long.toList

instance (t : Table) : Decidable t.NamesClear := decidable_of_iff _ (namesClear_iff t).symm

/-! ## What is understood -/

namespace NamesClear

variable (h : t.NamesClear)

include h

theorem ne_of_lt (hlt : j < i) (ho : t[j]? = some o) (he : t[i]? = some e) (honamed : o.IsNamed)
    (henamed : e.IsNamed) : e.long.toList ≠ o.long.toList := by
  intro hsame
  exact rel_of_pairwise h.distinct hlt ho he honamed henamed (String.toList_injective hsame).symm

/-- No option declared as `no-x` follows one declared as `x`. -/
theorem ne_underNo_of_lt (hlt : j < i) (ho : t[j]? = some o) (he : t[i]? = some e)
    (honamed : o.IsNamed) (henamed : e.IsNamed) : e.long.toList ≠ underNo o.long.toList := by
  cases hneg : o.negatable with
  | true =>
    exact h.notNegatable o (List.mem_of_getElem? ho) e (List.mem_of_getElem? he) honamed henamed
      hneg
  | false => exact rel_of_pairwise h.after hlt ho he honamed henamed hneg

/-- No option is declared as `no-` alone. -/
theorem ne_nil_of_underNo (he : e ∈ t) (hnamed : e.IsNamed)
    (hlong : e.long.toList = underNo positive) : positive ≠ [] := by
  rintro rfl
  have hno : e.long = "no-" := String.toList_injective hlong
  exact h.notReserved e he hnamed (by simp [hno])

theorem ne_underNo_underNo (he : e ∈ t) (hnamed : e.IsNamed) (name : List Char) :
    e.long.toList ≠ underNo (underNo name) := by
  intro hdouble
  apply h.notDouble e he hnamed
  rw [hdouble]
  exact List.prefix_append "no-no-".toList name

end NamesClear

section

variable (hvalid : t.defect? = none) (hclear : t.NamesClear) (hget : t[i]? = some e)
  (hnamed : e.IsNamed)

include hvalid hclear hget hnamed

/-- The long name of an option finds it. -/
theorem resolvesTo_long : t.ResolvesTo e.long.toList i e .long := by
  have hne : e.long.toList ≠ [] := by simpa using hnamed.2
  have hequals : '=' ∉ e.long.toList := equals_notMem_long hvalid hget hnamed.1
  refine resolvesTo_of_whole hne hequals hget (reading?_long hnamed) rfl ?_
  intro j o r hlt ho hread hwhole
  have honamed : o.IsNamed := isNamed_of_reading? hread
  have hno := whole_reading?_of_ne_long (hasLong_of_getElem? hget hnamed.1)
    (hclear.ne_of_lt hlt ho hget honamed hnamed) hread hwhole
  exact hclear.ne_underNo_of_lt hlt ho hget honamed hnamed hno

/-- The negation of a long name finds the option. -/
theorem resolvesTo_negation (hneg : e.negatable = true) :
    t.ResolvesTo (underNo e.long.toList) i e .negated := by
  have hequals : '=' ∉ underNo e.long.toList := by
    simpa [underNo] using equals_notMem_long hvalid hget hnamed.1
  obtain ⟨r, hread, hwhole, hform⟩ := whole_reading?_underNo (t := t) hnamed
  rw [← hform]
  refine resolvesTo_of_whole (by simp [underNo]) hequals hget hread hwhole ?_
  intro j o r' hlt ho hread' hwhole'
  have honamed : o.IsNamed := isNamed_of_reading? hread'
  rcases eq_of_whole_reading? hread' hwhole' with hname | hno | ⟨-, -, hdouble⟩
  -- `no-x` is declared together with `x`
  · exact hclear.notNegatable e (List.mem_of_getElem? hget) o (List.mem_of_getElem? ho) hnamed
      honamed hneg hname.symm
  -- `x` is declared twice
  · have hsame : e.long.toList = o.long.toList := by simpa [underNo] using hno
    exact hclear.ne_of_lt hlt ho hget honamed hnamed hsame
  · exact hclear.ne_underNo_underNo (List.mem_of_getElem? ho) honamed _ hdouble

/-- The opposite of a declared negation finds the option, if no option has that name. -/
theorem resolvesTo_opposite (hneg : e.negatable = true) (hlong : e.long.toList = underNo positive)
    (hundeclared : t.hasLong positive = false) : t.ResolvesTo positive i e .negated := by
  have hmem : e ∈ t := List.mem_of_getElem? hget
  have hne : positive ≠ [] := hclear.ne_nil_of_underNo hmem hnamed hlong
  have hequals : '=' ∉ positive := by
    have hnot := equals_notMem_long hvalid hget hnamed.1
    rw [hlong] at hnot
    simpa [underNo] using hnot
  have hplain : afterNo? positive = none := by
    rw [Option.eq_none_iff_forall_ne_some]
    intro rest hrest
    rw [eq_underNo_of_afterNo? hrest] at hlong
    exact hclear.ne_underNo_underNo hmem hnamed rest hlong
  have hread : t.reading? positive e = some (.exact .negated) := by
    rw [reading?_of_facingName hnamed (facingName_undeclared hneg hlong hundeclared hplain),
      if_pos rfl]
    rfl
  refine resolvesTo_of_whole hne hequals hget hread rfl ?_
  intro j o r hlt ho hread' hwhole
  have honamed : o.IsNamed := isNamed_of_reading? hread'
  rcases eq_of_whole_reading? hread' hwhole with hname | hno | ⟨-, -, hsame⟩
  · have hdeclared := hasLong_of_getElem? ho honamed.1
    rw [← hname, hundeclared] at hdeclared
    cases hdeclared
  · rw [hno] at hlong
    exact hclear.ne_underNo_underNo hmem hnamed _ hlong
  · exact hclear.ne_of_lt hlt ho hget honamed hnamed (hlong.trans hsame.symm)

/-- Every spelling finds its option in the form that it stands for. -/
theorem resolvesTo_of_mem_spellings {s : Spelling} (hs : s ∈ t.spellings e) :
    t.ResolvesTo s.name i e s.form := by
  rcases spelling_cases hs with rfl | ⟨hneg, rfl⟩ | ⟨positive, hneg, hlong, hundeclared, rfl⟩
  · exact resolvesTo_long hvalid hclear hget hnamed
  · exact resolvesTo_negation hvalid hclear hget hnamed hneg
  · exact resolvesTo_opposite hvalid hclear hget hnamed hneg hlong hundeclared

omit hvalid in
/-- No spelling is a call for help. -/
theorem ne_help_of_mem_spellings {s : Spelling} (hs : s ∈ t.spellings e) :
    s.name ≠ "help".toList := by
  have hreserved := hclear.notReserved e (List.mem_of_getElem? hget) hnamed
  rcases spelling_cases hs with rfl | ⟨-, rfl⟩ | ⟨positive, -, hlong, -, rfl⟩
  · intro hhelp
    exact hreserved (by simp [String.toList_injective hhelp])
  · simp [underNo]
  · rintro rfl
    have hno : e.long = "no-help" := String.toList_injective hlong
    exact hreserved (by simp [hno])

end

/-- A text that some option reads as a whole is resolved to a whole reading. -/
theorem isWhole_of_lookup {hit hit' : Hit} (hmem : hit' ∈ t.hits text)
    (hwhole : hit'.reading.isWhole = true) (h : t.lookup text = .found hit) :
    hit.reading.isWhole = true := by
  unfold lookup at h
  split at h
  · cases h
  · have hsome : ((t.hits text).find? (·.reading.isWhole)).isSome = true :=
      List.find?_isSome.2 ⟨hit', hmem, hwhole⟩
    obtain ⟨first, hfind⟩ := Option.isSome_iff_exists.1 hsome
    rw [Lookup.ofHits_of_find? hfind] at h
    cases h
    simpa using List.find?_some hfind

/-- The opposite of `no-x` finds that option only if no option is declared as `x`. -/
theorem hasLong_eq_false_of_resolvesTo {form : Form} (hlong : e.long.toList = underNo positive)
    (hne : positive ≠ []) (h : t.ResolvesTo positive i e form) : t.hasLong positive = false := by
  cases hdeclared : t.hasLong positive with
  | false => rfl
  | true =>
    -- an option declared as `x` reads its name as a whole, so that only such a reading is chosen
    rw [hasLong, List.any_eq_true] at hdeclared
    obtain ⟨o, hmem, ho⟩ := hdeclared
    obtain ⟨j, hget⟩ := List.mem_iff_getElem?.1 hmem
    obtain ⟨hoption, rfl⟩ : o.isHeading = false ∧ o.long.toList = positive := by simpa using ho
    have honamed : o.IsNamed := ⟨hoption, by simpa using hne⟩
    have hhit : (⟨j, o, .exact .long⟩ : Hit) ∈ t.hits o.long.toList :=
      mem_hits_iff.2 ⟨hget, reading?_long honamed⟩
    obtain ⟨r, hfound, -⟩ := h.lookup
    have hread := (mem_hits_iff.1 (mem_hits_of_lookup hfound)).2
    have hwhole := isWhole_of_lookup hhit rfl hfound
    rcases eq_of_whole_reading? hread hwhole with hname | hno | ⟨-, hundeclared, -⟩
    · exact absurd (hname.trans hlong) (ne_underNo _)
    · have hlength := congrArg List.length (hlong.trans (congrArg underNo hno))
      simp only [underNo, List.length_cons] at hlength
      omega
    · rw [hasLong_of_getElem? hget hoption] at hundeclared
      cases hundeclared

/-- The text of an entry stands between those of the entries before it and behind it. -/
theorem exists_usage_eq (hget : t[i]? = some e) (calls : List String) (l : Layout) :
    ∃ start, t.usage calls l =
      start ++ String.join ((t.take i).map (t.entryText l)) ++ t.entryText l e ++
        String.join ((t.drop (i + 1)).map (t.entryText l)) ++ "\n" := by
  obtain ⟨hlt, hi⟩ := List.getElem?_eq_some_iff.1 hget
  have hsplit : t = t.take i ++ e :: t.drop (i + 1) := by
    rw [← hi, List.getElem_cons_drop, List.take_append_drop]
  have hentries : String.join (t.map (t.entryText l)) =
      String.join ((t.take i).map (t.entryText l)) ++
        (t.entryText l e ++ String.join ((t.drop (i + 1)).map (t.entryText l))) := by
    rw [← String.join_cons, ← String.join_append, ← List.map_cons, ← List.map_append, ← hsplit]
  unfold usage
  dsimp only
  rw [hentries]
  simp only [← String.append_assoc]
  exact ⟨_, rfl⟩

end Table

namespace Parser

variable {p : Parser} {i : Nat} {e : Entry} {c : Cursor}

/-- The spelling is understood as the option `e` at `i` in its form. -/
structure Understands (p : Parser) (i : Nat) (e : Entry) (s : Spelling) : Prop where
  resolves : p.table.ResolvesTo s.name i e s.form
  /-- Behind two dashes, and not as a call for help. -/
  mentions : ∃ log, p.table.word ("--" ++ String.ofList s.name) =
    .options ⟨log, [⟨i, e, s.form, none⟩], .settled⟩

theorem understands_of_mem_spellings (hvalid : p.table.defect? = none)
    (hclear : p.table.NamesClear) (hget : p.table[i]? = some e) (hnamed : e.IsNamed)
    {s : Spelling} (hs : s ∈ p.table.spellings e) : p.Understands i e s := by
  have hresolves := Table.resolvesTo_of_mem_spellings hvalid hclear hget hnamed hs
  have hhelp := Table.ne_help_of_mem_spellings hclear hget hnamed hs
  exact ⟨hresolves, word_of_resolvesTo hresolves hhelp⟩

/-- The option at `i` is assigned where the cursor stands, and its slot then holds `content`. -/
def Overwrites (step : List Event × Step) (c : Cursor) (i : Nat) (content : Value) : Prop :=
  step.2 = .next c ∧ ∀ slots : Slots, slots.after step.1 = slots.set i content

/-- A switch without a value attached turns on. -/
theorem overwrites_switch (hc : c.attached = none) (htakes : e.takesValue = false) (i : Nat) :
    Overwrites (p.assigned c i e .long) c i (e.given none) := by
  have hassign : p.assigned c i e .long = ([.assigned ⟨i, e, .long, none⟩], .next c) := by
    simp [assigned, Cursor.assign, hc, htakes]
  rw [hassign]
  refine ⟨rfl, fun slots => ?_⟩
  exact congrArg (slots.set i)
    (Assignment.content_of_ne_negated (a := ⟨i, e, .long, none⟩) (by simp))

/-- A negation without a value attached clears the slot. -/
theorem overwrites_negation (hc : c.attached = none) (hneg : e.negatable = true) (i : Nat) :
    Overwrites (p.assigned c i e .negated) c i e.cleared := by
  have hassign : p.assigned c i e .negated = ([.assigned ⟨i, e, .negated, none⟩], .next c) := by
    simp [assigned, Cursor.assign, hc, hneg]
  rw [hassign]
  refine ⟨rfl, fun slots => ?_⟩
  exact congrArg (slots.set i) (Assignment.content_of_negated (a := ⟨i, e, .negated, none⟩) rfl rfl)

end Parser

/-- What the usage text says of an option. -/
structure Advert where
  /-- The long name as the own line of the option holds it. -/
  name : String
  /-- What that name stands for. -/
  spellings : List Spelling
  /-- The name that has a line of its own as the opposite of the option. -/
  opposite : Option (List Char)

/-- The usage text of `p` says this of the option `e` at `i`, and it is what the arguments mean. -/
structure Advert.Fits (a : Advert) (p : Parser) (i : Nat) (e : Entry) : Prop where
  /-- The text of the option stands between those of the entries before it and behind it. -/
  printed : ∃ start, p.usage =
    start ++ String.join ((p.table.take i).map (p.table.entryText p.layout)) ++
      p.table.entryText p.layout e ++
        String.join ((p.table.drop (i + 1)).map (p.table.entryText p.layout)) ++ "\n"
  /-- It is the own line of the option, and behind it the line of its opposite. -/
  text : p.table.entryText p.layout e =
    usageLine p.layout (e.lead ++ a.name ++ e.argument) e.help ++
      a.opposite.elim "" (oppositeLine p.layout)
  prints : e.Prints a.name a.spellings
  spelled : ∀ s ∈ a.spellings, p.Understands i e s
  opposed : ∀ positive, a.opposite = some positive → p.Understands i e ⟨positive, .negated⟩
  /-- The opposite of a declared negation has its line exactly where it is understood. -/
  opposite_iff : ∀ positive, a.opposite = some positive ↔
    e.negatable = true ∧ e.long.toList = underNo positive ∧
      p.table.ResolvesTo positive i e .negated

namespace Parser

/-- Where the names of a sound table do not collide, each long spelling in the usage text of an
option is understood as it is printed. Without a value attached, a switch turns on and a negation
clears the slot. -/
theorem advertises (p : Parser) :
    (p.table.defect? = none → p.table.NamesClear →
      ∀ i e, p.table[i]? = some e → e.IsNamed → ∃ a : Advert, a.Fits p i e) ∧
      ∀ (c : Cursor) (i : Nat) (e : Entry), c.attached = none →
        (e.takesValue = false → Overwrites (p.assigned c i e .long) c i (e.given none)) ∧
          (e.negatable = true → Overwrites (p.assigned c i e .negated) c i e.cleared) := by
  refine ⟨?_, ?_⟩
  · intro hvalid hclear i e hget hnamed
    obtain ⟨name, spellings, hprints, hleft⟩ := Entry.exists_prints hnamed
    have hunderstands : ∀ s ∈ p.table.spellings e, p.Understands i e s := fun s hs =>
      understands_of_mem_spellings hvalid hclear hget hnamed hs
    refine ⟨⟨name, spellings, p.table.opposite? e⟩, ?_, ?_, hprints, ?_, ?_, ?_⟩
    · exact Table.exists_usage_eq hget p.calls p.layout
    · rw [Table.entryText_eq hnamed.1, hleft]
    · exact fun s hs => hunderstands s (Table.mem_spellings_of_prints hnamed hprints hs)
    · exact fun positive hopposite =>
        hunderstands _ (Table.mem_spellings_of_opposite? hnamed hopposite)
    · intro positive
      rw [Table.opposite?_eq_some_iff]
      refine and_congr_right fun hneg => and_congr_right fun hlong => ⟨fun hundeclared => ?_, ?_⟩
      · exact Table.resolvesTo_opposite hvalid hclear hget hnamed hneg hlong hundeclared
      · have hne := hclear.ne_nil_of_underNo (List.mem_of_getElem? hget) hnamed hlong
        exact Table.hasLong_eq_false_of_resolvesTo hlong hne
  · intro c i e hc
    exact ⟨fun htakes => overwrites_switch hc htakes i,
      fun hneg => overwrites_negation hc hneg i⟩

/-- A parser with names of every shape, where `color` comes after `no-color`. -/
def publisher : Parser where
  table :=
    [{ kind := .flag, long := "verbose", short := some 'v', negatable := true },
     { kind := .path, long := "no-cache", negatable := true },
     { kind := .heading, help := "Colors" },
     { kind := .flag, long := "no-color" },
     { kind := .switch 3, long := "color" }]

/-- The line of `no-cache` has that of its opposite behind it, and `cache` clears it, while `color`
is an option of its own. -/
theorem advertises_opposite_of_cache :
    let cache : Entry := { kind := .path, long := "no-cache", negatable := true }
    let color : Entry := { kind := .switch 3, long := "color" }
    let c := Cursor.start {} ["--cache"]
    publisher.table.entryText publisher.layout cache =
        "    --no-cache ...\n    --cache               opposite of --no-cache\n" ∧
      (∃ a : Advert, a.Fits publisher 1 cache) ∧ (∃ a : Advert, a.Fits publisher 4 color) ∧
      Overwrites (publisher.assigned c 1 cache .negated) c 1 (.text none) ∧
      Overwrites (publisher.assigned c 4 color .long) c 4 (.number 3) := by
  intro cache color c
  obtain ⟨hnames, hslots⟩ := advertises publisher
  have hall := hnames (by decide +kernel) (by decide +kernel)
  refine ⟨by decide +kernel, hall 1 cache rfl (by decide), hall 4 color rfl (by decide), ?_, ?_⟩
  · exact (hslots c 1 cache rfl).2 rfl
  · exact (hslots c 4 color rfl).1 rfl

end Parser

end CommandLine
