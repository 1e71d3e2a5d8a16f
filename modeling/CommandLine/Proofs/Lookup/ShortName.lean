import CommandLine.Proofs.Lookup.ExactName

/-!
# Short names

In a table without defects no two options share a short name, so that each finds the option that
declares it (`Table.findShort?_eq_some_iff`).
-/

namespace CommandLine

/-- A switch takes no value, and its short name may be followed by others in one argument. -/
def Entry.IsSwitch (e : Entry) : Prop := e.isHeading = false ∧ e.takesValue = false

instance (e : Entry) : Decidable e.IsSwitch := inferInstanceAs (Decidable (_ ∧ _))

namespace Table

variable {t : Table} {c : Char} {i j : Nat} {e o : Entry}

/-- The short name of an option passes the checks of its table. -/
theorem checks_short (hvalid : t.defect? = none) (hget : t[i]? = some e)
    (hoption : e.isHeading = false) (hshort : e.short = some c) :
    Entry.isBadShort c = false ∧
      ((t.take i).filter (!·.isHeading)).any (·.short == some c) = false := by
  have hnone := defect?_getElem_eq_none hvalid hget
  simp only [Entry.defect?, hoption, hshort, Bool.false_eq_true, if_false, Option.isNone_some,
    Bool.and_false] at hnone
  split at hnone
  · cases hnone
  · split at hnone
    · cases hnone
    · rename_i hbad
      split at hnone
      · cases hnone
      · rename_i htwice
        exact ⟨by simpa using hbad, by simpa using htwice⟩

/-- A dash is nobody's short name. -/
theorem short_ne_dash (hvalid : t.defect? = none) (hget : t[i]? = some e)
    (hoption : e.isHeading = false) (hshort : e.short = some c) : c ≠ '-' := by
  have hgood := (checks_short hvalid hget hoption hshort).1
  rintro rfl
  cases hgood

/-- No option has the short name of an earlier one. -/
theorem short_ne_of_lt (hvalid : t.defect? = none) (hlt : i < j) (hgeti : t[i]? = some e)
    (hgetj : t[j]? = some o) (he : e.isHeading = false) (ho : o.isHeading = false)
    (hshort : o.short = some c) : e.short ≠ some c := by
  intro hsame
  have hmem : e ∈ (t.take j).filter (!·.isHeading) := by
    rw [List.mem_filter]
    refine ⟨List.mem_of_getElem? (i := i) ?_, by simp [he]⟩
    rw [List.getElem?_take_of_lt hlt, hgeti]
  have hnone := (checks_short hvalid hgetj ho hshort).2
  rw [List.any_eq_false] at hnone
  exact hnone e hmem (by simp [hsame])

/-- A short name finds the option that declares it. -/
theorem findShort?_eq_some_iff (hvalid : t.defect? = none) :
    t.findShort? c = some (i, e) ↔ t[i]? = some e ∧ e.isHeading = false ∧ e.short = some c := by
  constructor
  · exact getElem?_of_findShort?
  · rintro ⟨hget, hoption, hshort⟩
    -- the name is found, and what it finds can be no other option
    cases hfound : t.findShort? c with
    | none =>
      unfold findShort? at hfound
      rw [Option.map_eq_none_iff, List.find?_eq_none] at hfound
      exact absurd (by simp [hoption, hshort])
        (hfound (e, i) (List.mem_zipIdx_iff_getElem?.2 hget))
    | some found =>
      obtain ⟨j, o⟩ := found
      obtain ⟨hgetj, ho, hshortj⟩ := getElem?_of_findShort? hfound
      rcases Nat.lt_trichotomy i j with hlt | rfl | hlt
      · exact absurd hshort (short_ne_of_lt hvalid hlt hget hgetj hoption ho hshortj)
      · rw [Option.some.inj (hget.symm.trans hgetj)]
      · exact absurd hshortj (short_ne_of_lt hvalid hlt hgetj hget ho hoption hshort)

end Table

end CommandLine
