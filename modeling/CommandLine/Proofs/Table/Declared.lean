import CommandLine.Proofs.Table.FirstDefect
import CommandLine.Table.Declared

/-!
# One pass finds the first defect

A pass over a table that keeps the names in two sets comes to the same as looking every option up
among all earlier ones (`Table.check_eq`). After the entries of a table, the sets hold the names of
its options (`Table.declared`), so that what is refused by the sets is what clashes with an earlier
option. Behind a new short name the pair of names is new as well.
-/

namespace CommandLine

namespace Table

/-- The names that the options of a table declare. -/
def declared (t : Table) : Declared where
  count := t.length
  shorts := t.options.filterMap (·.short)
  pairs := t.options.map fun o => (o.short, o.long)

variable {t : Table} {e : Entry}

/-- The set of short names holds those of the earlier options. -/
theorem contains_shorts_declared (t : Table) (c : Char) :
    t.declared.shorts.contains c = t.options.any (·.short == some c) := by
  rw [Bool.eq_iff_iff]
  simp [declared, List.mem_filterMap]

/-- Without a short name, a pair is in the set if an earlier option has the long name and no short
one either. -/
theorem contains_pairs_declared_none (t : Table) (long : String) :
    t.declared.pairs.contains (none, long) =
      t.options.any fun o => o.short.isNone && o.long == long := by
  rw [Bool.eq_iff_iff]
  simp [declared]

/-- Behind a short name that is new, the pair is new. -/
theorem contains_pairs_declared_some {c : Char} (h : t.declared.shorts.contains c = false)
    (long : String) : t.declared.pairs.contains (some c, long) = false := by
  rw [contains_shorts_declared] at h
  simp only [List.any_eq_false, beq_iff_eq] at h
  simp only [declared, List.contains_eq_mem, List.mem_map, Prod.mk.injEq, decide_eq_false_iff_not]
  rintro ⟨o, ho, hshort, -⟩
  exact h o ho hshort

/-- The next entry is refused for its defect, and else its names are added. -/
theorem enter_declared (t : Table) (e : Entry) :
    t.declared.enter e =
      (e.defect? t t.length).elim (.ok (declared (t ++ [e]))) Except.error := by
  unfold Declared.enter Entry.defect?
  rw [← options]
  by_cases hheading : e.isHeading = true
  · rw [if_pos hheading, if_pos hheading]
    simp [declared, options_concat_of_heading hheading]
  rw [if_neg hheading, if_neg hheading]
  have hoption : e.isHeading = false := by simpa using hheading
  split
  · rfl
  split
  · rfl
  cases hshort : e.short with
  | some c =>
    have hshorts := contains_shorts_declared t c
    dsimp only [Declared.enterShort]
    by_cases hbad : Entry.isBadShort c = true
    · rw [if_pos hbad, if_pos hbad]
      rfl
    rw [if_neg hbad, if_neg hbad, hshorts]
    by_cases htwice : t.options.any (·.short == some c) = true
    · rw [if_pos htwice, if_pos htwice]
      rfl
    rw [if_neg htwice, if_neg htwice]
    have hpair := contains_pairs_declared_some (hshorts.trans (by simpa using htwice)) e.long
    show Declared.enterPair _ _ _ >>= _ = _
    rw [Declared.enterPair, if_neg (by simpa using hpair)]
    simp [declared, options_concat_of_option hoption, hshort, pure, Except.pure, bind, Except.bind]
  | none =>
    show Declared.enterPair _ _ _ >>= _ = _
    rw [Declared.enterPair, contains_pairs_declared_none]
    dsimp only
    by_cases htwice : (t.options.any fun o => o.short.isNone && o.long == e.long) = true
    · rw [if_pos htwice, if_pos htwice]
      rfl
    · rw [if_neg htwice, if_neg htwice]
      simp [declared, options_concat_of_option hoption, hshort, pure, Except.pure, bind,
        Except.bind]

/-- A pass over a table finds its defect, or has added the names of all its options. -/
theorem check_eq (t : Table) : t.check = t.defect?.elim (.ok t.declared) Except.error := by
  induction t using List.reverseRecOn with
  | nil => rfl
  | append_singleton t e ih =>
    have hpass : check (t ++ [e]) = check t >>= fun seen => seen.enter e := by
      rw [check, List.foldlM_append, ← check]
      simp
    rw [hpass, ih, defect?_concat]
    cases defect? t with
    | some d => rfl
    | none => exact enter_declared t e

end Table

end CommandLine
