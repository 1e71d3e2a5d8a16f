import CommandLine.Proofs.Lookup.Reading

/-!
# Long names given in full

A declared long name, given in full, finds the option that declares it wherever the other
options of the table stand, with one exception: an option declared earlier as `x` takes `no-x`
for its own negation, even where `no-x` is declared as well.
-/

namespace CommandLine

namespace Table

variable {t : Table} {text : List Char} {i : Nat} {e : Entry}

/-! ## Names of a table without defects -/

/-- In a table without defects every entry passes its own checks. -/
theorem defect?_getElem_eq_none (hvalid : t.defect? = none) (hget : t[i]? = some e) :
    e.defect? (t.take i) i = none := by
  unfold defect? at hvalid
  rw [List.findSome?_eq_none_iff] at hvalid
  exact hvalid (e, i) (List.mem_zipIdx_iff_getElem?.2 hget)

/-- No long name holds an equals sign, so that none is taken apart on the command line. -/
theorem equals_notMem_long (hvalid : t.defect? = none) (hget : t[i]? = some e)
    (hoption : e.isHeading = false) : '=' ∉ e.long.toList := by
  have hnone := defect?_getElem_eq_none hvalid hget
  intro hmem
  have hbad : e.hasBadLong = true := by simp [Entry.hasBadLong, hmem]
  simp only [Entry.defect?, hoption, hbad, Bool.false_eq_true, if_false, if_true] at hnone
  split at hnone <;> cases hnone

/-! ## The exception -/

/-- A declared name is read as a whole by another option only where that option's name, under
`no-`, is the same. -/
theorem whole_reading?_of_ne_long {o : Entry} {r : Reading} (hlong : t.hasLong text = true)
    (hne : text ≠ o.long.toList) (h : t.reading? text o = some r) (hwhole : r.isWhole = true) :
    text = underNo o.long.toList := by
  rcases eq_of_whole_reading? h hwhole with hsame | hno | ⟨-, hundeclared, -⟩
  · exact absurd hsame hne
  · exact hno
  · rw [hlong] at hundeclared
    cases hundeclared

theorem hasLong_of_getElem? (hget : t[i]? = some e) (hoption : e.isHeading = false) :
    t.hasLong e.long.toList = true := by
  rw [hasLong, List.any_eq_true]
  exact ⟨e, List.mem_of_getElem? hget, by simp [hoption]⟩

/-- The long name of the entry `e` at `i` finds that entry in its plain form, alone or with any
value attached. -/
def FindsItself (t : Table) (i : Nat) (e : Entry) : Prop :=
  t.resolve e.long.toList = ⟨e.long.toList, none, .found ⟨i, e, .exact .long⟩⟩ ∧
    ∀ value : List Char,
      t.resolve (e.long.toList ++ '=' :: value) =
        ⟨e.long.toList, some (String.ofList value), .found ⟨i, e, .exact .long⟩⟩

theorem findsItself_iff_lookup (hvalid : t.defect? = none) (hget : t[i]? = some e)
    (hoption : e.isHeading = false) :
    t.FindsItself i e ↔ t.lookup e.long.toList = .found ⟨i, e, .exact .long⟩ := by
  have hequals := equals_notMem_long hvalid hget hoption
  have hplain : t.resolve e.long.toList = ⟨e.long.toList, none, t.lookup e.long.toList⟩ := by
    rw [resolve, splitAttached_of_notMem hequals]
  have hattached (value : List Char) : t.resolve (e.long.toList ++ '=' :: value) =
      ⟨e.long.toList, some (String.ofList value), t.lookup e.long.toList⟩ := by
    rw [resolve, splitAttached_append hequals]
  simp [FindsItself, hplain, hattached]

/-- A long name finds the first option declared with it, wherever the other options stand,
exactly when no option before it is declared as `x` where the name is `no-x`. -/
theorem findsItself_iff (hvalid : t.defect? = none) (hget : t[i]? = some e) (hnamed : e.IsNamed)
    (hfirst : ∀ j o, j < i → t[j]? = some o → o.isHeading = false → o.long ≠ e.long) :
    t.FindsItself i e ↔
      ∀ j o, j < i → t[j]? = some o → o.IsNamed → e.long.toList ≠ underNo o.long.toList := by
  have hne : e.long.toList ≠ [] := by simpa using hnamed.2
  have hhit : (⟨i, e, .exact .long⟩ : Hit) ∈ t.hits e.long.toList :=
    mem_hits_iff.2 ⟨hget, reading?_long hnamed⟩
  rw [findsItself_iff_lookup hvalid hget hnamed.1, lookup_eq_found_whole_iff hne rfl]
  constructor
  -- an option declared as `x` would read its own negation first
  · intro hchosen j o hj ho honamed heq
    obtain ⟨-, hbefore⟩ := hchosen
    obtain ⟨r, hread, hwhole, -⟩ := whole_reading?_underNo (t := t) honamed
    have hnot := hbefore j o r hj ho (heq ▸ hread)
    rw [hwhole] at hnot
    cases hnot
  -- without such an option nothing before the entry reads the name as a whole
  · intro hclear
    refine ⟨hhit, fun j o r hj ho hread => ?_⟩
    have honamed := isNamed_of_reading? hread
    refine Bool.eq_false_iff.2 fun hwhole => ?_
    have hother : e.long.toList ≠ o.long.toList := fun h =>
      hfirst j o hj ho honamed.1 (String.toList_injective h).symm
    exact hclear j o hj ho honamed
      (whole_reading?_of_ne_long (hasLong_of_getElem? hget hnamed.1) hother hread hwhole)

/-- A table in which the switch `x` follows the negatable `no-x`, and `add` follows `address`. -/
def unshadowed : Table :=
  [{ kind := .text, long := "address" },
   { kind := .flag, long := "no-x", negatable := true },
   { kind := .switch 1, long := "x", negatable := true },
   { kind := .text, long := "add" }]

/-- Neither the negatable `no-x` before it nor its own negation keeps `x` from being found. -/
theorem findsItself_after_declared_negation :
    unshadowed.defect? = none ∧
      unshadowed.FindsItself 2 { kind := .switch 1, long := "x", negatable := true } := by
  refine ⟨by decide +kernel, (findsItself_iff (by decide +kernel) rfl (by decide) ?_).2 ?_⟩
  all_goals
    intro j o hj ho _
    match j, hj with
    | 0, _ => cases ho; decide
    | 1, _ => cases ho; decide

/-- A table in which `no-x` follows a switch `x` that has no negation. -/
def shadowed : Table :=
  [{ kind := .flag, long := "x" }, { kind := .flag, long := "no-x" }]

/-- The option declared as `no-x` is not found by its name: the text is taken for the negation
of `x`, which is then refused. -/
theorem not_findsItself_after_positive :
    shadowed.defect? = none ∧ shadowed[1]? = some { kind := .flag, long := "no-x" } ∧
      (∀ j o, j < 1 → shadowed[j]? = some o → o.isHeading = false → o.long ≠ "no-x") ∧
      ¬ shadowed.FindsItself 1 { kind := .flag, long := "no-x" } ∧
      (shadowed.resolve "no-x".toList).found =
        .found ⟨0, { kind := .flag, long := "x" }, .refusedNegation⟩ := by
  refine ⟨by decide +kernel, rfl, ?_, ?_, by decide +kernel⟩
  · intro j o hj ho _
    match j, hj with
    | 0, _ => cases ho; decide
  · intro hfinds
    have hplain := hfinds.1
    revert hplain
    decide +kernel

end Table

end CommandLine
