import CommandLine.Proofs.Lookup.ShortName
import CommandLine.Proofs.Table.WellNamed
import Mathlib.Data.List.Nodup
import Mathlib.Logic.Equiv.Defs

/-!
# Tables in another order

The order of a table shows in the choice among several whole readings of a text, and nowhere else.
Where no text names two options in full (`Table.SpelledApart`), a table in another order finds the
same options by the same names, and the same candidates where a name is ambiguous
(`Table.lookup_reordered`, `Table.findShort?_reordered`).
-/

namespace CommandLine

/-! ## Lists in another order -/

/-- The list `bs` is `as` in another order: at `i` stands what `as` has at `σ i`. -/
def Reordered {α : Type} (σ : Equiv.Perm ℕ) (as bs : List α) : Prop :=
  ∀ i : ℕ, bs[i]? = as[σ i]?

namespace Reordered

variable {α : Type} {σ : Equiv.Perm ℕ} {as bs : List α}

theorem getElem?_symm (h : Reordered σ as bs) (j : ℕ) : bs[σ.symm j]? = as[j]? := by
  rw [h, σ.apply_symm_apply]

theorem mem_iff (h : Reordered σ as bs) {a : α} : a ∈ bs ↔ a ∈ as := by
  rw [List.mem_iff_getElem?, List.mem_iff_getElem?]
  constructor
  · intro hmem
    obtain ⟨i, hget⟩ := hmem
    exact ⟨σ i, (h i).symm.trans hget⟩
  · intro hmem
    obtain ⟨j, hget⟩ := hmem
    exact ⟨σ.symm j, (h.getElem?_symm j).trans hget⟩

/-- The same change at the same element leaves the lists in their orders. -/
theorem set (h : Reordered σ as bs) (i : ℕ) (a : α) :
    Reordered σ (as.set (σ i) a) (bs.set i a) := by
  intro j
  by_cases hij : i = j
  · subst hij
    rw [List.getElem?_set_self', List.getElem?_set_self', h i]
  · have hmoved : σ i ≠ σ j := fun heq => hij (σ.injective heq)
    rw [List.getElem?_set_ne hij, List.getElem?_set_ne hmoved, h j]

end Reordered

/-! ## The names of an option -/

namespace Table

/-- The texts that name an option in full: its long name, `no-` and that name, and `x` where a
negatable option is declared as `no-x` and none is declared as `x`. -/
def wholeNames (t : Table) (e : Entry) : List (List Char) :=
  if e.isHeading || e.long == "" then []
  else
    e.long.toList :: underNo e.long.toList ::
      match afterNo? e.long.toList with
      | some positive => if e.negatable && !t.hasLong positive then [positive] else []
      | none => []

/-- No text names two options in full. -/
def SpelledApart (t : Table) : Prop :=
  t.Pairwise fun e o => ∀ text ∈ t.wholeNames e, text ∉ t.wholeNames o

instance (t : Table) : Decidable t.SpelledApart :=
  inferInstanceAs (Decidable (t.Pairwise fun e o => ∀ text ∈ t.wholeNames e, text ∉ t.wholeNames o))

variable {t t' : Table} {σ : Equiv.Perm ℕ} {text : List Char} {e o : Entry} {r : Reading}

/-- What an option reads as a whole is one of its names. -/
theorem mem_wholeNames_of_whole (h : t.reading? text e = some r) (hwhole : r.isWhole = true) :
    text ∈ t.wholeNames e := by
  have hnamed : e.IsNamed := isNamed_of_reading? h
  rw [wholeNames, if_neg (by simp [hnamed.1, hnamed.2])]
  rcases eq_of_whole_reading? h hwhole with hname | hno | ⟨hneg, hundeclared, hlong⟩
  · simp [hname]
  · simp [hno]
  · simp [hlong, afterNo?_underNo, hneg, hundeclared]

/-- Where all names are apart, one option at most reads a text as a whole. -/
theorem SpelledApart.index_eq (h : t.SpelledApart) {i j : ℕ} (hi : t[i]? = some e)
    (hj : t[j]? = some o) (he : text ∈ t.wholeNames e) (ho : text ∈ t.wholeNames o) : i = j := by
  rcases Nat.lt_trichotomy i j with hlt | heq | hlt
  · exact absurd ho (rel_of_pairwise h hlt hi hj text he)
  · exact heq
  · exact absurd he (rel_of_pairwise h hlt hj hi text ho)

end Table

/-! ## What a table in another order finds -/

/-- The hit at the place where `σ` moves it. -/
def Hit.moved (σ : Equiv.Perm ℕ) (h : Hit) : Hit := { h with index := σ h.index }

/-- The same is found at the place where `σ` moves it, and the same candidates in any order. -/
inductive Lookup.Moves (σ : Equiv.Perm ℕ) : Lookup → Lookup → Prop
  | unknown : Moves σ .unknown .unknown
  | found (hit : Hit) : Moves σ (.found (hit.moved σ)) (.found hit)
  | ambiguous {hits hits' : List Hit} (h : hits.Perm (hits'.map (Hit.moved σ))) :
      Moves σ (.ambiguous hits) (.ambiguous hits')

/-- With one whole reading at most, the choice among the hits does not depend on their order. -/
theorem Lookup.moves_ofHits {σ : Equiv.Perm ℕ} {hits hits' : List Hit}
    (hperm : hits.Perm (hits'.map (Hit.moved σ)))
    (hone : ∀ h ∈ hits, ∀ h' ∈ hits, h.reading.isWhole = true → h'.reading.isWhole = true →
      h = h') :
    Moves σ (ofHits hits) (ofHits hits') := by
  by_cases hwhole : ∃ h ∈ hits, h.reading.isWhole = true
  -- whichever whole reading comes first on either side, it is the only one
  · have hwhole' : ∃ h ∈ hits', h.reading.isWhole = true := by
      obtain ⟨h, hmem, hw⟩ := hwhole
      obtain ⟨h', hmem', rfl⟩ := List.mem_map.1 (hperm.mem_iff.1 hmem)
      exact ⟨h', hmem', hw⟩
    obtain ⟨h, hfind⟩ := Option.isSome_iff_exists.1 (List.find?_isSome.2 hwhole)
    obtain ⟨h', hfind'⟩ := Option.isSome_iff_exists.1 (List.find?_isSome.2 hwhole')
    have hread : h.reading.isWhole = true := by simpa using List.find?_some hfind
    have hread' : h'.reading.isWhole = true := by simpa using List.find?_some hfind'
    have hmoved : h'.moved σ ∈ hits :=
      hperm.mem_iff.2 (List.mem_map_of_mem (List.mem_of_find?_eq_some hfind'))
    have hsame : h = h'.moved σ :=
      hone h (List.mem_of_find?_eq_some hfind) _ hmoved hread hread'
    rw [ofHits_of_find? hfind, ofHits_of_find? hfind', hsame]
    exact .found h'
  -- otherwise only their number counts
  · have hpart : ∀ h ∈ hits, h.reading.isWhole = false := by
      intro h hmem
      exact Bool.eq_false_iff.2 fun hw => hwhole ⟨h, hmem, hw⟩
    have hpart' : ∀ h ∈ hits', h.reading.isWhole = false := by
      intro h hmem
      exact hpart (h.moved σ) (hperm.mem_iff.2 (List.mem_map_of_mem hmem))
    rw [ofHits_of_not_whole hpart, ofHits_of_not_whole hpart']
    rcases hits' with _ | ⟨h', _ | ⟨h'', more⟩⟩
    · rw [List.map_nil] at hperm
      rw [hperm.eq_nil]
      exact .unknown
    · rw [List.map_singleton, List.perm_singleton] at hperm
      rw [hperm]
      exact .found h'
    · have hlength := hperm.length_eq
      rcases hits with _ | ⟨a, _ | ⟨b, rest⟩⟩
      · simp at hlength
      · simp at hlength
      · exact .ambiguous hperm

namespace Table

variable {t t' : Table} {σ : Equiv.Perm ℕ} {text : List Char} {e : Entry}

/-- Whether a name is declared does not depend on where. -/
theorem hasLong_reordered (h : Reordered σ t t') (name : List Char) :
    t'.hasLong name = t.hasLong name := by
  rw [Bool.eq_iff_iff, hasLong, hasLong, List.any_eq_true, List.any_eq_true]
  simp only [h.mem_iff]

/-- An option reads a text in the same way wherever it stands. -/
theorem reading?_reordered (h : Reordered σ t t') (text : List Char) (e : Entry) :
    t'.reading? text e = t.reading? text e :=
  reading?_congr text fun positive _ _ => hasLong_reordered h positive

theorem mem_hits_reordered (h : Reordered σ t t') {hit : Hit} :
    hit ∈ t'.hits text ↔ hit.moved σ ∈ t.hits text := by
  rw [mem_hits_iff, mem_hits_iff, reading?_reordered h, h hit.index]
  rfl

/-- No option reads a text twice. -/
theorem nodup_hits (t : Table) (text : List Char) : (t.hits text).Nodup := by
  have hzip : t.zipIdx.Nodup := by
    apply List.Nodup.of_map Prod.snd
    rw [List.zipIdx_map_snd]
    exact List.nodup_range'
  refine hzip.filterMap ?_
  intro x y hit hx hy
  obtain ⟨r, -, rfl⟩ := Option.map_eq_some_iff.1 hx
  obtain ⟨r', -, heq⟩ := Option.map_eq_some_iff.1 hy
  simp only [Hit.mk.injEq] at heq
  exact Prod.ext heq.2.1.symm heq.1.symm

theorem hits_perm (h : Reordered σ t t') (text : List Char) :
    (t.hits text).Perm ((t'.hits text).map (Hit.moved σ)) := by
  have hinjective : Function.Injective (Hit.moved σ) := by
    intro a b hab
    cases a
    cases b
    simpa [Hit.moved] using hab
  rw [List.perm_ext_iff_of_nodup (nodup_hits t text) ((nodup_hits t' text).map hinjective)]
  intro hit
  have hback : hit = Hit.moved σ { hit with index := σ.symm hit.index } := by
    simp [Hit.moved]
  rw [hback, List.mem_map_of_injective hinjective, mem_hits_reordered h]

/-- A table whose names are apart finds the same in any order. -/
theorem lookup_reordered (hapart : t.SpelledApart) (h : Reordered σ t t') (text : List Char) :
    (t.lookup text).Moves σ (t'.lookup text) := by
  by_cases hempty : text.isEmpty = true
  · rw [lookup, lookup, if_pos hempty, if_pos hempty]
    exact .unknown
  · rw [lookup, lookup, if_neg hempty, if_neg hempty]
    apply Lookup.moves_ofHits (hits_perm h text)
    intro a ha b hb hwhole hwhole'
    obtain ⟨hget, hread⟩ := mem_hits_iff.1 ha
    obtain ⟨hget', hread'⟩ := mem_hits_iff.1 hb
    have hindex : a.index = b.index :=
      hapart.index_eq hget hget' (mem_wholeNames_of_whole hread hwhole)
        (mem_wholeNames_of_whole hread' hwhole')
    have hentry : a.entry = b.entry := by
      rw [hindex, hget'] at hget
      exact (Option.some.inj hget).symm
    have hreading : a.reading = b.reading := by
      rw [hentry, hread'] at hread
      exact (Option.some.inj hread).symm
    cases a
    cases b
    simp_all

/-- A table without defects has none in another order. -/
theorem defect?_reordered (hvalid : t.defect? = none) (h : Reordered σ t t') :
    t'.defect? = none := by
  rw [defect?_eq_none_iff_wellNamed] at hvalid ⊢
  refine ⟨fun e hmem => hvalid.entries e (h.mem_iff.1 hmem), ?_⟩
  intro i j e o hlt hget hget' hoption hoption' hclash
  rw [h] at hget hget'
  -- the two may stand in either order in the other table
  rcases Nat.lt_trichotomy (σ i) (σ j) with hbefore | heq | hbefore
  · exact hvalid.apart _ _ e o hbefore hget hget' hoption hoption' hclash
  · exact absurd (σ.injective heq) (Nat.ne_of_lt hlt)
  · exact hvalid.apart _ _ o e hbefore hget' hget hoption' hoption hclash.symm

/-- A short name finds its option wherever that stands. -/
theorem findShort?_reordered (hvalid : t.defect? = none) (h : Reordered σ t t') (c : Char) :
    t.findShort? c = (t'.findShort? c).map fun (i, e) => (σ i, e) := by
  have hvalid' : t'.defect? = none := defect?_reordered hvalid h
  ext ⟨j, e⟩
  rw [findShort?_eq_some_iff hvalid, Option.map_eq_some_iff]
  constructor
  · intro hfound
    refine ⟨(σ.symm j, e), ?_, by simp⟩
    rw [findShort?_eq_some_iff hvalid', h.getElem?_symm]
    exact hfound
  · intro hfound
    obtain ⟨⟨i, e'⟩, hfound', heq⟩ := hfound
    cases heq
    rw [findShort?_eq_some_iff hvalid', h i] at hfound'
    exact hfound'

end Table

end CommandLine
