import CommandLine.Proofs.Lookup.ExactName
import Mathlib.Tactic.MkIffOfInductiveProp

/-!
# Tables without defects

The checks of a table go through its entries in order and stop at the first defect. What they come
to knows no order (`Table.defect?_eq_none_iff_wellNamed`): every option has names that cannot be
mistaken for anything else, and no two options clash.
-/

namespace CommandLine

namespace Entry

/-- The option has a name, and no name that would be taken apart on the command line. -/
@[mk_iff]
structure WellNamed (e : Entry) : Prop where
  named : e.long ≠ "" ∨ e.short ≠ none
  long : e.hasBadLong = false
  short : ∀ c, e.short = some c → isBadShort c = false

/-- Two options that may not stand in one table: they share a short name, or have only the same
long one. -/
def Clashes (e o : Entry) : Prop :=
  (e.short = none ∧ o.short = none ∧ e.long = o.long) ∨
    ∃ c, e.short = some c ∧ o.short = some c

theorem Clashes.symm {e o : Entry} (h : e.Clashes o) : o.Clashes e := by
  rcases h with ⟨hno, hno', hlong⟩ | ⟨c, hshort, hshort'⟩
  · exact .inl ⟨hno', hno, hlong.symm⟩
  · exact .inr ⟨c, hshort', hshort⟩

/-- A check that is passed leaves what the checks after it find. -/
theorem check_eq_none_iff {failed : Prop} [Decidable failed] {d : Defect} {more : Option Defect} :
    (if failed then some d else more) = none ↔ ¬ failed ∧ more = none := by
  by_cases h : failed <;> simp [h]

/-- An entry passes its checks if it is a heading, or if it is well named and clashes with no
option before it. -/
theorem defect?_eq_none_iff {earlier : List Entry} {index : Nat} {e : Entry} :
    e.defect? earlier index = none ↔ (e.isHeading = false →
      e.WellNamed ∧ ∀ o ∈ earlier, o.isHeading = false → ¬ o.Clashes e) := by
  cases hoption : e.isHeading with
  | true => simp [defect?, hoption]
  | false =>
    rw [wellNamed_iff]
    cases hshort : e.short with
    | none =>
      have hclash (o : Entry) : o.Clashes e ↔ o.short = none ∧ o.long = e.long := by
        simp [Clashes, hshort]
      simp [defect?, hoption, hshort, hclash, check_eq_none_iff, and_assoc]
    | some c =>
      have hclash (o : Entry) : o.Clashes e ↔ o.short = some c := by
        simp [Clashes, hshort]
      simp [defect?, hoption, hshort, hclash, check_eq_none_iff, and_assoc]

end Entry

namespace Table

/-- What holds of every two entries holds of an earlier and a later one. -/
theorem rel_of_pairwise {t : Table} {R : Entry → Entry → Prop} {i j : Nat} {e o : Entry}
    (h : t.Pairwise R) (hlt : i < j) (hi : t[i]? = some e) (hj : t[j]? = some o) : R e o := by
  obtain ⟨hilt, rfl⟩ := List.getElem?_eq_some_iff.1 hi
  obtain ⟨hjlt, rfl⟩ := List.getElem?_eq_some_iff.1 hj
  exact List.pairwise_iff_getElem.1 h i j hilt hjlt hlt

/-- All options are well named, and no two of them clash. -/
structure WellNamed (t : Table) : Prop where
  entries : ∀ e ∈ t, e.isHeading = false → e.WellNamed
  apart : ∀ (i j : Nat) (e o : Entry), i < j → t[i]? = some e → t[j]? = some o →
    e.isHeading = false → o.isHeading = false → ¬ e.Clashes o

/-- A table has no defect exactly if it is well named. -/
theorem defect?_eq_none_iff_wellNamed {t : Table} : t.defect? = none ↔ t.WellNamed := by
  have hchecks : t.defect? = none ↔
      ∀ (i : Nat) (e : Entry), t[i]? = some e → e.defect? (t.take i) i = none := by
    constructor
    · intro hvalid i e hget
      exact defect?_getElem_eq_none hvalid hget
    · intro hall
      rw [defect?, List.findSome?_eq_none_iff]
      intro x hmem
      exact hall x.2 x.1 (List.mem_zipIdx_iff_getElem?.1 hmem)
  rw [hchecks]
  constructor
  · intro hall
    refine ⟨?_, ?_⟩
    · intro e hmem hoption
      obtain ⟨i, hget⟩ := List.mem_iff_getElem?.1 hmem
      exact (Entry.defect?_eq_none_iff.1 (hall i e hget) hoption).1
    · intro i j e o hlt hget hget' hoption hoption'
      have hbefore : e ∈ t.take j := by
        apply List.mem_of_getElem? (i := i)
        rw [List.getElem?_take_of_lt hlt, hget]
      exact (Entry.defect?_eq_none_iff.1 (hall j o hget') hoption').2 e hbefore hoption
  · intro hnamed j o hget'
    rw [Entry.defect?_eq_none_iff]
    intro hoption'
    refine ⟨hnamed.entries o (List.mem_of_getElem? hget') hoption', ?_⟩
    intro e hbefore hoption
    obtain ⟨i, hget⟩ := List.mem_iff_getElem?.1 hbefore
    rw [List.getElem?_take] at hget
    split at hget
    · rename_i hlt
      exact hnamed.apart i j e o hlt hget hget' hoption hoption'
    · cases hget

end Table

end CommandLine
