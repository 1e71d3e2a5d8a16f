import CommandLine.Lookup

/-!
# Readings and the choice among them

What `Table.reading?` makes of an option, case by case over the name that the option is held
against (`Table.facingName`), and when a whole reading decides `Table.lookup`.
-/

namespace CommandLine

/-- A name with `no-` in front of it. -/
def underNo (name : List Char) : List Char := 'n' :: 'o' :: '-' :: name

theorem afterNo?_underNo (name : List Char) : afterNo? (underNo name) = some name := rfl

theorem eq_underNo_of_afterNo? {text name : List Char} (h : afterNo? text = some name) :
    text = underNo name := afterNo?_eq_some_iff.1 h

/-- A name is never its own negation. -/
theorem ne_underNo (name : List Char) : name ≠ underNo name := by
  intro h
  have hlength := congrArg List.length h
  simp [underNo] at hlength
  omega

/-- A text starts `no-name` if it starts `no-`, or has `no-` and the start of `name`. -/
theorem prefix_underNo_iff {text name : List Char} :
    text <+: underNo name ↔
      text <+: ['n', 'o', '-'] ∨ ∃ rest, text = underNo rest ∧ rest <+: name := by
  constructor
  · intro h
    have hno : ['n', 'o', '-'] <+: underNo name := List.prefix_append ['n', 'o', '-'] name
    rcases List.prefix_or_prefix_of_prefix h hno with hshort | ⟨rest, rfl⟩
    · exact .inl hshort
    · exact .inr ⟨rest, rfl, (List.prefix_append_right_inj ['n', 'o', '-']).1 h⟩
  · intro h
    rcases h with hshort | ⟨rest, rfl, hrest⟩
    · exact hshort.trans (List.prefix_append ['n', 'o', '-'] name)
    · exact (List.prefix_append_right_inj ['n', 'o', '-']).2 hrest

namespace Entry

/-- Whether a long option on the command line can name the entry. -/
def IsNamed (e : Entry) : Prop := e.isHeading = false ∧ e.long ≠ ""

instance (e : Entry) : Decidable e.IsNamed := inferInstanceAs (Decidable (_ ∧ _))

end Entry

/-- The first whole reading decides. -/
theorem Lookup.ofHits_of_find? {hits : List Hit} {hit : Hit}
    (h : hits.find? (·.reading.isWhole) = some hit) : ofHits hits = .found hit := by
  simp only [ofHits, h]

/-- Without a whole reading the number of hits decides. -/
theorem Lookup.ofHits_of_not_whole {hits : List Hit} :
    (∀ hit ∈ hits, hit.reading.isWhole = false) →
      ofHits hits =
        match hits with
        | [] => .unknown
        | [hit] => .found hit
        | hits => .ambiguous hits := by
  intro hpart
  have hnone : hits.find? (·.reading.isWhole) = none := by
    rw [List.find?_eq_none]
    intro hit hmem
    simp [hpart hit hmem]
  match hits, hnone with
  | [], _ => rfl
  | [hit], hnone => simp only [ofHits, hnone]
  | hit :: hit' :: more, hnone => simp only [ofHits, hnone]

theorem Lookup.ofHits_singleton (hit : Hit) : ofHits [hit] = .found hit := by
  unfold ofHits
  cases hwhole : hit.reading.isWhole <;> simp [hwhole]

/-- A hit that is found without being whole is the only one. -/
theorem Lookup.eq_singleton_of_ofHits {hits : List Hit} {hit : Hit} (h : ofHits hits = .found hit)
    (hpart : hit.reading.isWhole = false) : hits = [hit] := by
  unfold ofHits at h
  split at h
  · rename_i hfind
    cases h
    have hwhole : hit.reading.isWhole = true := by simpa using List.find?_some hfind
    rw [hpart] at hwhole
    cases hwhole
  · split at h <;> cases h
    rfl

/-- What is found, with every hit replaced. -/
def Lookup.map (f : Hit → Hit) : Lookup → Lookup
  | unknown => .unknown
  | found hit => .found (f hit)
  | ambiguous hits => .ambiguous (hits.map f)

/-- The choice depends on the readings alone. -/
theorem Lookup.ofHits_map {f : Hit → Hit} (hf : ∀ h, (f h).reading = h.reading)
    (hits : List Hit) : ofHits (hits.map f) = (ofHits hits).map f := by
  have hwhole : (fun h : Hit => h.reading.isWhole) ∘ f = fun h : Hit => h.reading.isWhole :=
    funext fun h => congrArg Reading.isWhole (hf h)
  unfold ofHits
  rw [List.find?_map, hwhole]
  cases hits.find? (·.reading.isWhole) with
  | some hit => rfl
  | none =>
    match hits with
    | [] => rfl
    | [_] => rfl
    | _ :: _ :: _ => rfl

namespace Table

variable {t : Table} {text name : List Char} {e : Entry} {r : Reading}

theorem lookup_of_ne_nil (h : text ≠ []) : t.lookup text = Lookup.ofHits (t.hits text) := by
  rw [lookup, if_neg (by simpa using h)]

/-! ## The name that an option is held against -/

/-- An option is held against its declared name, or else against the positive of a declared
negation, which no option is declared as. -/
theorem facingName_cases (t : Table) (text : List Char) (e : Entry) :
    t.facingName text e = (e.long.toList, false) ∨
      ∃ positive, t.facingName text e = (positive, true) ∧
        e.long.toList = underNo positive ∧ e.negatable = true ∧
        afterNo? text = none ∧ t.hasLong positive = false := by
  unfold facingName Entry.facingName
  split
  · rename_i positive hpositive
    split
    · rename_i hcond
      simp only [Bool.and_eq_true, Option.isNone_iff_eq_none, Bool.not_eq_true'] at hcond
      obtain ⟨⟨hnegatable, htext⟩, hlong⟩ := hcond
      exact .inr ⟨positive, rfl, eq_underNo_of_afterNo? hpositive, hnegatable, htext, hlong⟩
    · exact .inl rfl
  · exact .inl rfl

/-- A text that starts `no-` is held against the declared name. -/
theorem facingName_underNo (t : Table) (rest : List Char) (e : Entry) :
    t.facingName (underNo rest) e = (e.long.toList, false) := by
  rcases facingName_cases t (underNo rest) e with h | ⟨_, _, _, _, hnone, _⟩
  · exact h
  · simp [afterNo?_underNo] at hnone

/-- The declared name is held against itself. -/
theorem facingName_long (t : Table) (e : Entry) :
    t.facingName e.long.toList e = (e.long.toList, false) := by
  rcases facingName_cases t e.long.toList e with h | ⟨_, _, hlong, _, hnone, _⟩
  · exact h
  · simp [hlong, afterNo?_underNo] at hnone

theorem facingName_undeclared {positive : List Char} (hnegatable : e.negatable = true)
    (hlong : e.long.toList = underNo positive) (hundeclared : t.hasLong positive = false)
    (htext : afterNo? text = none) : t.facingName text e = (positive, true) := by
  simp [facingName, Entry.facingName, hlong, afterNo?_underNo, hnegatable, htext, hundeclared]

/-! ## What an option makes of a text -/

/-- Headings and options with a short name only read no text. -/
theorem isNamed_of_reading? (h : t.reading? text e = some r) : e.IsNamed := by
  unfold reading? Entry.reading? at h
  dsimp only at h
  split at h
  · cases h
  · rename_i hnamed
    simpa [Entry.IsNamed] using hnamed

/-- Of the table an option only wants to know whether its opposite is declared. -/
theorem reading?_congr {t' : Table} (text : List Char)
    (h : ∀ positive, e.negatable = true → afterNo? e.long.toList = some positive →
      t'.hasLong positive = t.hasLong positive) :
    t'.reading? text e = t.reading? text e := by
  have hfacing : t'.facingName text e = t.facingName text e := by
    unfold facingName Entry.facingName
    split
    · rename_i positive hpositive
      by_cases hneg : e.negatable = true
      · rw [h positive hneg hpositive]
      · simp [hneg]
    · rfl
  rw [facingName, facingName] at hfacing
  rw [reading?, reading?, Entry.reading?, Entry.reading?, hfacing]

/-- The reading of an option that has a long name, by the name it is held against. -/
theorem reading?_of_facingName {facesNegation : Bool} (hnamed : e.IsNamed)
    (hfacing : t.facingName text e = (name, facesNegation)) :
    t.reading? text e =
      if text = name then some (.exact (Form.ofPolarity false facesNegation))
      else if text.isPrefixOf name then some (.abbreviation (Form.ofPolarity false facesNegation))
      else if !e.negatable then
        if afterNo? text = some name then some .refusedNegation else none
      else if text.isPrefixOf ['n', 'o', '-'] then
        some (.abbreviation (Form.ofPolarity true facesNegation))
      else
        match afterNo? text with
        | none => none
        | some rest =>
          if rest = name then some (.exactNegation (Form.ofPolarity true facesNegation))
          else if rest.isPrefixOf name then
            some (.abbreviation (Form.ofPolarity true facesNegation))
          else none := by
  rw [facingName] at hfacing
  rw [reading?, Entry.reading?, hfacing]
  exact if_neg (by simp [hnamed.1, hnamed.2])

/-- A whole reading is of the name that the option is held against, or of its negation. -/
theorem eq_facingName_of_whole {facesNegation : Bool}
    (hfacing : t.facingName text e = (name, facesNegation))
    (h : t.reading? text e = some r) (hwhole : r.isWhole = true) :
    text = name ∨ text = underNo name := by
  rw [reading?_of_facingName (isNamed_of_reading? h) hfacing] at h
  -- one case for each reading, of which the abbreviations are not whole
  repeat' split at h
  all_goals cases h
  · rename_i htext
    exact .inl htext
  · cases hwhole
  · rename_i htext
    exact .inr (eq_underNo_of_afterNo? htext)
  · cases hwhole
  · rename_i _ hrest hname
    exact .inr (hname ▸ eq_underNo_of_afterNo? hrest)
  · cases hwhole

/-- An option reads its long name as such. -/
theorem reading?_long (hnamed : e.IsNamed) :
    t.reading? e.long.toList e = some (.exact .long) := by
  rw [reading?_of_facingName hnamed (facingName_long t e), if_pos rfl]
  rfl

/-- An option reads `no-` and its long name as its negation, allowed or not. -/
theorem whole_reading?_underNo (hnamed : e.IsNamed) :
    ∃ r, t.reading? (underNo e.long.toList) e = some r ∧ r.isWhole = true ∧
      r.form = .negated := by
  have hne : e.long.toList ≠ [] := by simpa using hnamed.2
  -- `no-name` is too long to be the start of `name` or of `no-`
  have hlonger : ¬ underNo e.long.toList <+: e.long.toList := fun h => by
    have := h.length_le
    simp [underNo] at this
    omega
  have hlongerNo : ¬ underNo e.long.toList <+: ['n', 'o', '-'] := fun h => by
    have := h.length_le
    simp only [underNo, List.length_cons, List.length_nil] at this
    exact hne (List.length_eq_zero_iff.1 (by omega))
  rw [reading?_of_facingName hnamed (facingName_underNo t _ e),
    if_neg (ne_underNo _).symm, if_neg (by simpa using hlonger)]
  by_cases hnegatable : e.negatable = true
  · rw [if_neg (by simp [hnegatable]), if_neg (by simpa using hlongerNo), afterNo?_underNo]
    exact ⟨.exactNegation .negated, by simp [Form.ofPolarity], rfl, rfl⟩
  · rw [if_pos (by simpa using hnegatable), afterNo?_underNo, if_pos rfl]
    exact ⟨.refusedNegation, rfl, rfl, rfl⟩

/-- An option reads a whole text only as its own name, as `no-` and that name, or as the
positive of the negation that it is declared as. -/
theorem eq_of_whole_reading? (h : t.reading? text e = some r) (hwhole : r.isWhole = true) :
    text = e.long.toList ∨ text = underNo e.long.toList ∨
      (e.negatable = true ∧ t.hasLong text = false ∧ e.long.toList = underNo text) := by
  rcases facingName_cases t text e with hname | ⟨positive, hname, hlong, hneg, hnone, hhas⟩
  · exact (eq_facingName_of_whole hname h hwhole).imp_right .inl
  · rcases eq_facingName_of_whole hname h hwhole with rfl | rfl
    · exact .inr (.inr ⟨hneg, hhas, hlong⟩)
    · simp [afterNo?_underNo] at hnone

/-! ## The choice among the readings -/

/-- The first whole reading of the table is that of an entry before which there is none. -/
theorem find?_hits_eq_some_iff {h : Hit} :
    (t.hits text).find? (·.reading.isWhole) = some h ↔
      h ∈ t.hits text ∧ h.reading.isWhole = true ∧
        ∀ j o r, j < h.index → t[j]? = some o → t.reading? text o = some r →
          r.isWhole = false := by
  rw [mem_hits_iff, hits, List.find?_filterMap, Option.bind_eq_some_iff]
  constructor
  · intro hbind
    obtain ⟨⟨e, i⟩, hfind, hhit⟩ := hbind
    obtain ⟨r, hread, rfl⟩ := Option.map_eq_some_iff.1 hhit
    obtain ⟨hwhole, k, hk, hget, hbefore⟩ := List.find?_eq_some_iff_getElem.1 hfind
    -- the place in the numbered table is the number
    obtain ⟨hentry, rfl⟩ : t[k]? = some e ∧ k = i := by
      have hget' : t.zipIdx[k]? = some (e, i) := by rw [List.getElem?_eq_getElem hk, hget]
      have hmem := List.mem_zipIdx_iff_getElem?.1 (List.mem_of_getElem? hget')
      have hindex : k = i := by simpa using congrArg Prod.snd hget
      exact ⟨hindex ▸ hmem, hindex⟩
    refine ⟨⟨hentry, hread⟩, by simpa [hread] using hwhole, fun j o r' hj ho hr' => ?_⟩
    obtain ⟨hlt, rfl⟩ := List.getElem?_eq_some_iff.1 ho
    simpa [hr'] using hbefore j hj
  · intro hfirst
    obtain ⟨⟨hget, hread⟩, hwhole, hbefore⟩ := hfirst
    obtain ⟨hlt, hentry⟩ := List.getElem?_eq_some_iff.1 hget
    refine ⟨(h.entry, h.index), ?_, by simp [hread]⟩
    rw [List.find?_eq_some_iff_getElem]
    refine ⟨by simp [hread, hwhole], h.index, by simpa using hlt, by simp [hentry], ?_⟩
    intro j hj
    have hj' : j < t.length := Nat.lt_trans hj hlt
    cases hr : t.reading? text t[j] with
    | none => simp [hr]
    | some r => simpa [hr] using hbefore j t[j] r hj (by simp) hr

/-- A whole reading is chosen exactly when no entry before it has one. -/
theorem lookup_eq_found_whole_iff {h : Hit} (hne : text ≠ []) (hwhole : h.reading.isWhole = true) :
    t.lookup text = .found h ↔
      h ∈ t.hits text ∧
        ∀ j o r, j < h.index → t[j]? = some o → t.reading? text o = some r →
          r.isWhole = false := by
  have hfirst : (t.hits text).find? (·.reading.isWhole) = some h ↔ _ := find?_hits_eq_some_iff
  simp only [hwhole, true_and] at hfirst
  rw [← hfirst, lookup, if_neg (by simpa using hne)]
  unfold Lookup.ofHits
  split
  · rename_i hit hfind
    simp [hfind]
  · rename_i hnone
    rw [hnone]
    split
    · simp
    · rename_i hit hhits
      -- the only hit is found as well, but it is not whole
      simp only [hhits, List.find?_singleton] at hnone
      simp only [reduceCtorEq, iff_false]
      intro heq
      cases heq
      simp [hwhole] at hnone
    · simp

/-! ## Texts given in full -/

/-- The text, given in full after two dashes, is resolved to the option `e` at `i` in this form. -/
def ResolvesTo (t : Table) (text : List Char) (i : Nat) (e : Entry) (form : Form) : Prop :=
  ∃ r, t.resolve text = ⟨text, none, .found ⟨i, e, r⟩⟩ ∧ r.form = form

variable {i : Nat}

/-- A whole reading is resolved to if no option before it has one. -/
theorem resolvesTo_of_whole (hne : text ≠ []) (hequals : '=' ∉ text) (hget : t[i]? = some e)
    (hread : t.reading? text e = some r) (hwhole : r.isWhole = true)
    (hfirst : ∀ j o r', j < i → t[j]? = some o → t.reading? text o = some r' →
      ¬ r'.isWhole = true) :
    t.ResolvesTo text i e r.form := by
  have hfound : t.lookup text = .found ⟨i, e, r⟩ := by
    rw [lookup_eq_found_whole_iff hne hwhole]
    refine ⟨mem_hits_iff.2 ⟨hget, hread⟩, ?_⟩
    intro j o r' hlt ho hread'
    exact Bool.eq_false_iff.2 (hfirst j o r' hlt ho hread')
  refine ⟨r, ?_, rfl⟩
  simp only [resolve, splitAttached_of_notMem hequals, hfound]

theorem ResolvesTo.lookup {form : Form} (h : t.ResolvesTo text i e form) :
    ∃ r, t.lookup text = .found ⟨i, e, r⟩ ∧ r.form = form := by
  obtain ⟨r, hresolve, hform⟩ := h
  have hname : (splitAttached text).1 = text := congrArg Resolution.text hresolve
  have hfound : t.lookup (splitAttached text).1 = .found ⟨i, e, r⟩ :=
    congrArg Resolution.found hresolve
  rw [hname] at hfound
  exact ⟨r, hfound, hform⟩

theorem ResolvesTo.getElem? {form : Form} (h : t.ResolvesTo text i e form) : t[i]? = some e := by
  obtain ⟨r, hfound, -⟩ := h.lookup
  exact (mem_hits_iff.1 (mem_hits_of_lookup hfound)).1

theorem ResolvesTo.isNamed {form : Form} (h : t.ResolvesTo text i e form) : e.IsNamed := by
  obtain ⟨r, hfound, -⟩ := h.lookup
  exact isNamed_of_reading? (mem_hits_iff.1 (mem_hits_of_lookup hfound)).2

/-- The empty text is resolved to nothing. -/
theorem ResolvesTo.ne_nil {form : Form} (h : t.ResolvesTo text i e form) : text ≠ [] := by
  rintro rfl
  obtain ⟨r, hfound, -⟩ := h.lookup
  cases hfound

end Table

end CommandLine
