import CommandLine.Proofs.Lookup.Spelling

/-!
# Longer abbreviations

Typing more of an abbreviation does not change what it stands for (`Table.resolvesTo_longer`). Every
option that reads the longer text reads the shorter one as well, so that no other option comes in
(`Table.exists_reading?_of_longer`), and the option that was found is still given in the same form
(`Table.map_form_reading?_longer`), even where the text grows into the `no-` of a declared negation.
-/

namespace CommandLine

/-- The start of a text that does not start `no-` does not either. -/
theorem afterNo?_eq_none_of_longer {text more : List Char} (hstart : text <+: more)
    (hmore : afterNo? more = none) : afterNo? text = none := by
  obtain ⟨rest, rfl⟩ := hstart
  by_contra hsome
  obtain ⟨name, hname⟩ := Option.ne_none_iff_exists'.1 hsome
  rw [eq_underNo_of_afterNo? hname] at hmore
  cases hmore

namespace Table

variable {t : Table} {text more name : List Char} {i : Nat} {e o : Entry} {r : Reading}
  {form : Form}

/-! ## The form of a reading -/

/-- The form in which an option reads a text. The name that it is held against comes before the
negation of that name, of which an option that has none reads the whole only. -/
theorem map_form_reading? {facesNegation : Bool} (hnamed : e.IsNamed)
    (hfacing : t.facingName text e = (name, facesNegation)) :
    (t.reading? text e).map Reading.form =
      if text <+: name then some (Form.ofPolarity false facesNegation)
      else if e.negatable = true ∧ text <+: underNo name then
        some (Form.ofPolarity true facesNegation)
      else if e.negatable = false ∧ text = underNo name then some .negated
      else none := by
  rw [reading?_of_facingName hnamed hfacing]
  by_cases hstart : text <+: name
  · rw [if_pos hstart]
    by_cases heq : text = name
    · rw [if_pos heq]
      rfl
    · rw [if_neg heq, if_pos (by simpa using hstart)]
      rfl
  have hne : text ≠ name := by
    rintro rfl
    exact hstart (List.prefix_refl text)
  rw [if_neg hstart, if_neg hne, if_neg (by simpa using hstart)]
  -- the name does not start with the text, so that only its negation is left
  cases hnegatable : e.negatable with
  | false =>
    have hrefused : afterNo? text = some name ↔ text = underNo name := afterNo?_eq_some_iff
    by_cases hno : text = underNo name
    · simp [hno, afterNo?_underNo, Reading.form]
    · simp [hrefused, hno]
  | true =>
    by_cases hshort : text <+: ['n', 'o', '-']
    · simp [prefix_underNo_iff, hshort, Reading.form]
    cases hafter : afterNo? text with
    | none =>
      have hnone : ¬ ∃ rest, text = underNo rest ∧ rest <+: name := by
        rintro ⟨rest, rfl, -⟩
        cases hafter
      simp [prefix_underNo_iff, hshort, hnone]
    | some rest =>
      have htext : text = underNo rest := eq_underNo_of_afterNo? hafter
      have hrest : text <+: underNo name ↔ rest <+: name := by
        rw [htext]
        exact List.prefix_append_right_inj ['n', 'o', '-']
      by_cases heq : rest = name
      · simp [hshort, hrest, heq, Reading.form]
      · by_cases hprefix : rest <+: name <;> simp [hshort, hrest, heq, hprefix, Reading.form]

/-- An option reads a text if it is the start of the name that it is held against, or stands for the
negation of that name. -/
theorem exists_reading?_iff {facesNegation : Bool} (hnamed : e.IsNamed)
    (hfacing : t.facingName text e = (name, facesNegation)) :
    (∃ r, t.reading? text e = some r) ↔
      text <+: name ∨ (e.negatable = true ∧ text <+: underNo name) ∨
        (e.negatable = false ∧ text = underNo name) := by
  have hform := map_form_reading? hnamed hfacing
  rw [← Option.isSome_iff_exists, ← Option.isSome_map (f := Reading.form), hform]
  split
  · simp [*]
  · split
    · simp [*]
    · split <;> simp [*]

/-! ## No other option comes in -/

/-- What reads a text reads every start of it, unless the text is a negation that is refused. -/
theorem exists_reading?_of_longer (hstart : text <+: more) (hread : t.reading? more o = some r)
    (hrefused : o.negatable = false → more ≠ underNo o.long.toList) :
    ∃ r', t.reading? text o = some r' := by
  have hnamed : o.IsNamed := isNamed_of_reading? hread
  rcases facingName_cases t more o with hmore | ⟨positive, hmore, hlong, hneg, hnone, hundeclared⟩
  · have hreads : more <+: o.long.toList ∨
        (o.negatable = true ∧ more <+: underNo o.long.toList) := by
      rcases (exists_reading?_iff hnamed hmore).1 ⟨r, hread⟩ with hname | hneg | ⟨hneg, hwhole⟩
      · exact .inl hname
      · exact .inr hneg
      · exact absurd hwhole (hrefused hneg)
    rcases facingName_cases t text o with htext | ⟨positive, htext, hlong, hneg, hnone, -⟩
    · rw [exists_reading?_iff hnamed htext]
      rcases hreads with hname | ⟨hneg, hno⟩
      · exact .inl (hstart.trans hname)
      · exact .inr (.inl ⟨hneg, hstart.trans hno⟩)
    -- the shorter text is held against `x`: if the longer one is not the start of `no-x` but of its
    -- negation, the shorter one is the start of `no-` alone
    · rw [exists_reading?_iff hnamed htext]
      refine .inr (.inl ⟨hneg, ?_⟩)
      rcases hreads with hname | ⟨-, hno⟩
      · exact hlong ▸ hstart.trans hname
      · rcases prefix_underNo_iff.1 (hstart.trans hno) with hshort | ⟨rest, rfl, -⟩
        · exact prefix_underNo_iff.2 (.inl hshort)
        · cases hnone
  -- neither text starts `no-`, so that both are held against `x`
  · have htext : t.facingName text o = (positive, true) :=
      facingName_undeclared hneg hlong hundeclared (afterNo?_eq_none_of_longer hstart hnone)
    rw [exists_reading?_iff hnamed htext]
    rcases (exists_reading?_iff hnamed hmore).1 ⟨r, hread⟩ with hname | ⟨-, hno⟩ | ⟨hfalse, -⟩
    · exact .inl (hstart.trans hname)
    · exact .inr (.inl ⟨hneg, hstart.trans hno⟩)
    · rw [hneg] at hfalse
      cases hfalse

/-! ## The option that was found keeps its form -/

theorem toList_invokedName_of_plain (hplain : afterNo? e.long.toList = none) :
    (e.invokedName true).toList = underNo e.long.toList := by
  simp [Entry.invokedName, hplain, underNo]

theorem toList_invokedName_of_underNo {positive : List Char}
    (hlong : e.long.toList = underNo positive) : (e.invokedName true).toList = positive := by
  simp [Entry.invokedName, hlong, afterNo?_underNo]

/-- Where a text is held against the declared name, so is every longer one up to the name that it
stands for, and that gives the option in the same form. -/
theorem map_form_reading?_longer_of_long (htext : t.facingName text e = (e.long.toList, false))
    (hread : t.reading? text e = some r) (hstart : text <+: more)
    (hname : more <+: (e.invokedName (r.form == .negated)).toList) :
    (t.reading? more e).map Reading.form = some r.form := by
  have hnamed : e.IsNamed := isNamed_of_reading? hread
  have hmore : t.facingName more e = (e.long.toList, false) := by
    rcases facingName_cases t more e with hmore | ⟨positive, -, hlong, hneg, hnone, hundeclared⟩
    · exact hmore
    · have hnone' : afterNo? text = none := afterNo?_eq_none_of_longer hstart hnone
      rw [facingName_undeclared hneg hlong hundeclared hnone'] at htext
      cases htext
  have hform : (t.reading? text e).map Reading.form = some r.form := by
    rw [hread]
    rfl
  rw [map_form_reading? hnamed htext] at hform
  rw [map_form_reading? hnamed hmore]
  by_cases hplain : text <+: e.long.toList
  · rw [if_pos hplain] at hform
    have hlongForm : r.form = .long := (Option.some.inj hform).symm
    rw [hlongForm] at hname
    have hname' : more <+: e.long.toList := by simpa [Entry.invokedName] using hname
    rw [if_pos hname', hlongForm]
    rfl
  rw [if_neg hplain] at hform
  have hplain' : ¬ more <+: e.long.toList := fun h => hplain (hstart.trans h)
  have hno : text <+: underNo e.long.toList ∧ r.form = .negated := by
    split at hform
    · rename_i hneg
      exact ⟨hneg.2, (Option.some.inj hform).symm⟩
    · split at hform
      · rename_i hwhole
        exact ⟨hwhole.2 ▸ List.prefix_refl text, (Option.some.inj hform).symm⟩
      · cases hform
  obtain ⟨hno, hnegated⟩ := hno
  rw [hnegated] at hname hform
  cases hafter : afterNo? e.long.toList with
  -- the negation of `no-x` is `x`, which does not start as `no-no-x` does
  | some positive =>
    have hlong := eq_underNo_of_afterNo? hafter
    rw [beq_self_eq_true, toList_invokedName_of_underNo hlong] at hname
    exact absurd (hstart.trans hname) (not_prefix_positive_of_double hlong hplain hno)
  | none =>
    rw [beq_self_eq_true, toList_invokedName_of_plain hafter] at hname
    rw [if_neg hplain', hnegated]
    cases hneg : e.negatable with
    | true =>
      rw [if_pos ⟨rfl, hname⟩]
      rfl
    | false =>
      -- a refused negation is whole already
      have hwhole : text = underNo e.long.toList := by
        by_contra hne
        simp [hneg, hne] at hform
      have hmoreWhole : more = underNo e.long.toList := by
        rw [hwhole] at hstart
        exact (hstart.eq_of_length_le hname.length_le).symm
      rw [if_neg (by simp), if_pos ⟨rfl, hmoreWhole⟩]

/-- Where a text is held against `x` in the place of `no-x`, a longer one may be held against `no-x`
instead, but gives the option in the same form. -/
theorem map_form_reading?_longer_of_positive {positive : List Char}
    (htext : t.facingName text e = (positive, true)) (hlong : e.long.toList = underNo positive)
    (hneg : e.negatable = true) (hundeclared : t.hasLong positive = false)
    (hdouble : ¬ "no-no-".toList <+: e.long.toList) (hread : t.reading? text e = some r)
    (hstart : text <+: more) (hname : more <+: (e.invokedName (r.form == .negated)).toList) :
    (t.reading? more e).map Reading.form = some r.form := by
  have hnamed : e.IsNamed := isNamed_of_reading? hread
  have hform : (t.reading? text e).map Reading.form = some r.form := by
    rw [hread]
    rfl
  rw [map_form_reading? hnamed htext] at hform
  by_cases hplain : text <+: positive
  · rw [if_pos hplain] at hform
    have hnegated : r.form = .negated := (Option.some.inj hform).symm
    rw [hnegated, beq_self_eq_true, toList_invokedName_of_underNo hlong] at hname
    -- `x` does not start `no-`, or the declared name would start `no-no-`
    have hnone : afterNo? more = none := by
      by_contra hsome
      obtain ⟨rest, hrest⟩ := Option.ne_none_iff_exists'.1 hsome
      rw [eq_underNo_of_afterNo? hrest] at hname
      apply hdouble
      rw [hlong]
      have hno : underNo [] <+: positive := (List.prefix_append _ rest).trans hname
      exact (List.prefix_append_right_inj ['n', 'o', '-']).2 hno
    rw [map_form_reading? hnamed (facingName_undeclared hneg hlong hundeclared hnone),
      if_pos hname, hnegated]
    rfl
  · rw [if_neg hplain] at hform
    have hlongForm : r.form = .long := by
      split at hform
      · exact (Option.some.inj hform).symm
      · simp [hneg] at hform
    have hname' : more <+: e.long.toList := by
      rw [hlongForm] at hname
      simpa [Entry.invokedName] using hname
    rw [hlongForm]
    rcases facingName_cases t more e with hmore | ⟨positive', hmore, hlong', -, -, -⟩
    · rw [map_form_reading? hnamed hmore, if_pos hname']
      rfl
    · obtain rfl : positive' = positive := by
        rw [hlong'] at hlong
        simpa [underNo] using hlong
      have hplain' : ¬ more <+: positive' := fun h => hplain (hstart.trans h)
      rw [map_form_reading? hnamed hmore, if_neg hplain', if_pos ⟨hneg, hlong ▸ hname'⟩]
      rfl

/-- A text that is longer than a reading of an option, and no longer than the name that the reading
stands for, gives the option in the same form. -/
theorem map_form_reading?_longer (hdouble : ¬ "no-no-".toList <+: e.long.toList)
    (hread : t.reading? text e = some r) (hstart : text <+: more)
    (hname : more <+: (e.invokedName (r.form == .negated)).toList) :
    (t.reading? more e).map Reading.form = some r.form := by
  rcases facingName_cases t text e with htext | ⟨positive, htext, hlong, hneg, -, hundeclared⟩
  · exact map_form_reading?_longer_of_long htext hread hstart hname
  · exact map_form_reading?_longer_of_positive htext hlong hneg hundeclared hdouble hread hstart
      hname

/-! ## What is found -/

theorem length_invokedName_le_underNo (e : Entry) (negated : Bool) :
    (e.invokedName negated).toList.length ≤ (underNo e.long.toList).length := by
  cases negated with
  | false =>
    simp only [Entry.invokedName, underNo, List.length_cons, Bool.false_eq_true, if_false]
    omega
  | true =>
    cases hafter : afterNo? e.long.toList with
    | none => exact Nat.le_of_eq (congrArg List.length (toList_invokedName_of_plain hafter))
    | some positive =>
      have hlong := eq_underNo_of_afterNo? hafter
      rw [toList_invokedName_of_underNo hlong, hlong]
      simp only [underNo, List.length_cons]
      omega

/-- No name that a whole reading stands for is longer than the text. -/
theorem length_invokedName_le (hread : t.reading? text e = some r) (hwhole : r.isWhole = true) :
    (e.invokedName (r.form == .negated)).toList.length ≤ text.length := by
  rcases facingName_cases t text e with htext | ⟨positive, htext, hlong, -, hnone, -⟩
  · rcases eq_facingName_of_whole htext hread hwhole with rfl | rfl
    · rw [reading?_long (isNamed_of_reading? hread)] at hread
      cases hread
      simp [Reading.form, Entry.invokedName]
    · exact length_invokedName_le_underNo e _
  · rcases eq_facingName_of_whole htext hread hwhole with rfl | rfl
    · have hform := map_form_reading? (isNamed_of_reading? hread) htext
      rw [hread, if_pos (List.prefix_refl text)] at hform
      have hnegated : r.form = .negated := Option.some.inj hform
      rw [hnegated, beq_self_eq_true]
      exact Nat.le_of_eq (congrArg List.length (toList_invokedName_of_underNo hlong))
    · cases hnone

/-- Where whatever reads one text reads another, there are no fewer hits for that. -/
theorem length_hits_le
    (h : ∀ o ∈ t, ∀ r, t.reading? more o = some r → ∃ r', t.reading? text o = some r') :
    (t.hits more).length ≤ (t.hits text).length := by
  rw [hits, hits, List.length_filterMap_eq_countP, List.length_filterMap_eq_countP]
  refine List.countP_mono_left fun x hmem hsome => ?_
  obtain ⟨o, j⟩ := x
  have hget := List.mem_zipIdx_iff_getElem?.1 hmem
  rw [Option.isSome_map, Option.isSome_iff_exists] at hsome ⊢
  obtain ⟨r, hread⟩ := hsome
  exact h o (List.mem_of_getElem? hget) r hread

/-- A text that finds an option goes on to find it, in the same form, when more of the name that it
stands for is typed. The name may not start `no-no-`, and the longer text may not be the negation of
an option that has none. -/
theorem resolvesTo_longer (hdouble : ∀ o ∈ t, o.IsNamed → ¬ "no-no-".toList <+: o.long.toList)
    (hfound : t.ResolvesTo text i e form) (hstart : text <+: more)
    (hname : more <+: (e.invokedName (form == .negated)).toList) (hequals : '=' ∉ more)
    (hrefused : ∀ o ∈ t, o.IsNamed → o.negatable = false → more ≠ underNo o.long.toList) :
    t.ResolvesTo more i e form := by
  obtain ⟨r, hlookup, rfl⟩ := hfound.lookup
  obtain ⟨hget, hread⟩ := mem_hits_iff.1 (mem_hits_of_lookup hlookup)
  by_cases hwhole : r.isWhole = true
  -- a whole name cannot be typed any further
  · have hlength : more.length ≤ text.length :=
      Nat.le_trans hname.length_le (length_invokedName_le hread hwhole)
    rwa [← hstart.eq_of_length_le hlength]
  have htext : text ≠ [] := hfound.ne_nil
  have hmore : more ≠ [] := by
    rintro rfl
    exact htext (List.prefix_nil.1 hstart)
  -- the option is the only one that reads the text, and so the only one that reads more of it
  have hone : t.hits text = [⟨i, e, r⟩] := by
    rw [lookup_of_ne_nil htext] at hlookup
    exact Lookup.eq_singleton_of_ofHits hlookup (by simpa using hwhole)
  have hfewer : (t.hits more).length ≤ (t.hits text).length := length_hits_le fun o ho r' hread' =>
    exists_reading?_of_longer hstart hread' (hrefused o ho (isNamed_of_reading? hread'))
  obtain ⟨r', hread', hform⟩ := Option.map_eq_some_iff.1 (map_form_reading?_longer
    (hdouble e (List.mem_of_getElem? hget) (isNamed_of_reading? hread)) hread hstart hname)
  have hhit : (⟨i, e, r'⟩ : Hit) ∈ t.hits more := mem_hits_iff.2 ⟨hget, hread'⟩
  have honeMore : t.hits more = [⟨i, e, r'⟩] := by
    rw [hone] at hfewer
    obtain ⟨hit, hhits⟩ := List.length_eq_one_iff.1
      (Nat.le_antisymm hfewer (List.length_pos_of_mem hhit))
    rw [hhits, List.mem_singleton] at hhit
    rw [hhits, hhit]
  refine ⟨r', ?_, hform⟩
  simp only [resolve, splitAttached_of_notMem hequals, lookup_of_ne_nil hmore, honeMore,
    Lookup.ofHits_singleton]

/-- Options among which only a declared negation can be abbreviated by `n`. -/
def pagers : Table :=
  [{ kind := .text, long := "title" },
   { kind := .flag, long := "no-pager", negatable := true },
   { kind := .heading, help := "Names" },
   { kind := .path, long := "pagination" }]

/-- As `n` the text is held against `pager`, whose negation it abbreviates. As `no-pa` it is held
against the declared name itself. -/
theorem resolvesTo_longer_across_no :
    let pager : Entry := { kind := .flag, long := "no-pager", negatable := true }
    pagers.ResolvesTo "n".toList 1 pager .long ∧
      pagers.ResolvesTo "no-pa".toList 1 pager .long := by
  intro pager
  have hshort : pagers.ResolvesTo "n".toList 1 pager .long :=
    ⟨.abbreviation .long, by decide +kernel, rfl⟩
  refine ⟨hshort, ?_⟩
  exact resolvesTo_longer (by decide +kernel) hshort (by decide +kernel) (by decide +kernel)
    (by decide) (by decide +kernel)

end Table

end CommandLine
