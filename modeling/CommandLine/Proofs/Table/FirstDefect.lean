import CommandLine.Proofs.Table.WellNamed
import Mathlib.Data.List.Basic
import Mathlib.Data.List.Induction

/-!
# The first defect of a table

A table is checked entry by entry, and the checks stop at the first entry that breaks a rule. What
is accepted are exactly the well-formed tables, and what is said of a table that is not depends on
nothing behind that entry, and on no heading (`Table.firstDefect`).

## Strategy

The checks of a longer table are those of the shorter one and then those of the added entry
(`Table.defect?_concat`), so that each result is an induction over the table from its end.
-/

namespace CommandLine

/-! ## The rules for one entry -/

namespace Defect

/-- The place of a rule in the order of the checks. -/
def rank : Defect → Nat
  | nameless _ => 0
  | badLong _ => 1
  | badShort _ => 2
  | shortTwice _ => 3
  | longTwice _ => 4

/-- The defect without the index that its message quotes. -/
def unnumbered : Defect → Defect
  | nameless _ => nameless 0
  | d => d

/-- Defects that differ at most in an index. -/
theorem eq_or_nameless_of_unnumbered_eq {d d' : Defect} (h : d.unnumbered = d'.unnumbered) :
    d = d' ∨ ∃ i j, d = nameless i ∧ d' = nameless j := by
  cases d with
  | nameless i =>
    cases d' with
    | nameless j => exact .inr ⟨i, j, rfl, rfl⟩
    | _ => cases h
  | _ => cases d' <;> first | exact .inl h | cases h

end Defect

namespace Entry

/-- The rules that the entry at `index` breaks, after the `earlier` ones. -/
inductive Breaks (earlier : List Entry) (index : Nat) (e : Entry) : Defect → Prop
  | nameless (hlong : e.long = "") (hshort : e.short = none) :
    Breaks earlier index e (.nameless index)
  | badLong (h : e.long.toList.head? = some '-' ∨ '=' ∈ e.long.toList) :
    Breaks earlier index e (.badLong e.long)
  | badShort {c : Char} (hshort : e.short = some c) (h : c = '-' ∨ Text.isBlank c = true) :
    Breaks earlier index e (.badShort c)
  | shortTwice {o : Entry} {c : Char} (ho : o ∈ earlier) (hoption : o.isHeading = false)
    (hshort : e.short = some c) (hsame : o.short = some c) : Breaks earlier index e (.shortTwice c)
  | longTwice {o : Entry} (ho : o ∈ earlier) (hoption : o.isHeading = false)
    (hshort : e.short = none) (hnone : o.short = none) (hsame : o.long = e.long) :
    Breaks earlier index e (.longTwice e.long)

/-- The first rule that an option breaks. -/
structure FirstBroken (earlier : List Entry) (index : Nat) (e : Entry) (d : Defect) : Prop where
  isOption : e.isHeading = false
  breaks : e.Breaks earlier index d
  first : ∀ d', e.Breaks earlier index d' → d.rank ≤ d'.rank

variable {earlier : List Entry} {index : Nat} {e : Entry} {d d' : Defect}

theorem Breaks.eq_of_rank_eq (h : e.Breaks earlier index d) (h' : e.Breaks earlier index d')
    (hrank : d.rank = d'.rank) : d = d' := by
  cases h <;> cases h' <;> simp_all [Defect.rank]

theorem hasBadLong_iff :
    e.hasBadLong = true ↔ e.long.toList.head? = some '-' ∨ '=' ∈ e.long.toList := by
  simp [hasBadLong]

theorem isBadShort_iff {c : Char} : isBadShort c = true ↔ c = '-' ∨ Text.isBlank c = true := by
  simp [isBadShort]

/-! Each check that is passed excludes its rule, and so raises the least rank. -/

theorem Breaks.one_le_rank (h : e.Breaks earlier index d) (hnamed : e.long ≠ "" ∨ e.short ≠ none) :
    1 ≤ d.rank := by
  cases h with
  | nameless hlong hshort => exact absurd hnamed (by simp [hlong, hshort])
  | _ => simp [Defect.rank]

theorem Breaks.two_le_rank (h : e.Breaks earlier index d) (hnamed : e.long ≠ "" ∨ e.short ≠ none)
    (hlong : e.hasBadLong = false) : 2 ≤ d.rank := by
  have hle := h.one_le_rank hnamed
  cases h with
  | nameless => cases hle
  | badLong hbad => exact absurd (hasBadLong_iff.2 hbad) (by simp [hlong])
  | _ => simp [Defect.rank]

theorem Breaks.three_le_rank (h : e.Breaks earlier index d) (hnamed : e.WellNamed) :
    3 ≤ d.rank := by
  have hle := h.two_le_rank hnamed.named hnamed.long
  cases h with
  | nameless | badLong => simp [Defect.rank] at hle
  | badShort hshort hbad => exact absurd (isBadShort_iff.2 hbad) (by simp [hnamed.short _ hshort])
  | _ => simp [Defect.rank]

theorem Breaks.four_le_rank (h : e.Breaks earlier index d) (hnamed : e.WellNamed)
    (hshort : e.short = none) : 4 ≤ d.rank := by
  have hle := h.three_le_rank hnamed
  cases h with
  | nameless | badLong | badShort => simp [Defect.rank] at hle
  | shortTwice _ _ hsome => exact absurd hsome (by simp [hshort])
  | longTwice => exact Nat.le_refl _

/-- The checks find the first rule that an option breaks. -/
theorem firstBroken_of_defect? (h : e.defect? earlier index = some d) :
    e.FirstBroken earlier index d := by
  unfold defect? at h
  by_cases hheading : e.isHeading = true
  · rw [if_pos hheading] at h
    cases h
  rw [if_neg hheading] at h
  have hoption : e.isHeading = false := by simpa using hheading
  by_cases hname : (e.long == "" && e.short.isNone) = true
  · rw [if_pos hname] at h
    have hnone : e.long = "" ∧ e.short = none := by simpa using hname
    cases h
    exact ⟨hoption, .nameless hnone.1 hnone.2, fun _ _ => Nat.zero_le _⟩
  rw [if_neg hname] at h
  have hnamed : e.long ≠ "" ∨ e.short ≠ none := by
    rw [← not_and_or]
    simpa using hname
  by_cases hlong : e.hasBadLong = true
  · rw [if_pos hlong] at h
    cases h
    exact ⟨hoption, .badLong (hasBadLong_iff.1 hlong), fun _ hd' => hd'.one_le_rank hnamed⟩
  rw [if_neg hlong] at h
  have hlong : e.hasBadLong = false := by simpa using hlong
  cases hshort : e.short with
  | some c =>
    simp only [hshort] at h
    by_cases hbad : isBadShort c = true
    · rw [if_pos hbad] at h
      cases h
      exact ⟨hoption, .badShort hshort (isBadShort_iff.1 hbad),
        fun _ hd' => hd'.two_le_rank hnamed hlong⟩
    rw [if_neg hbad] at h
    have hwell : e.WellNamed := by
      refine ⟨hnamed, hlong, fun c' hc' => ?_⟩
      rw [hshort] at hc'
      cases hc'
      simpa using hbad
    split at h
    · rename_i htwice
      obtain ⟨o, ho, hsame⟩ := List.any_eq_true.1 htwice
      obtain ⟨hmem, hother⟩ := List.mem_filter.1 ho
      cases h
      exact ⟨hoption, .shortTwice hmem (by simpa using hother) hshort (by simpa using hsame),
        fun _ hd' => hd'.three_le_rank hwell⟩
    · cases h
  | none =>
    simp only [hshort] at h
    have hwell : e.WellNamed := ⟨hnamed, hlong, by simp [hshort]⟩
    split at h
    · rename_i htwice
      obtain ⟨o, ho, hsame⟩ := List.any_eq_true.1 htwice
      obtain ⟨hmem, hother⟩ := List.mem_filter.1 ho
      have hboth : o.short = none ∧ o.long = e.long := by simpa using hsame
      cases h
      exact ⟨hoption, .longTwice hmem (by simpa using hother) hshort hboth.1 hboth.2,
        fun _ hd' => hd'.four_le_rank hwell hshort⟩
    · cases h

theorem wellNamed_iff_rules :
    e.WellNamed ↔ (e.short ≠ none ∨ e.long ≠ "") ∧
      (e.long.toList.head? ≠ some '-' ∧ '=' ∉ e.long.toList) ∧
        ∀ c, e.short = some c → c ≠ '-' ∧ Text.isBlank c = false := by
  simp [wellNamed_iff, hasBadLong, isBadShort, or_comm]

theorem exists_defect?_of_breaks (hoption : e.isHeading = false) (h : e.Breaks earlier index d) :
    ∃ d', e.defect? earlier index = some d' := by
  rw [← Option.isSome_iff_exists, Option.isSome_iff_ne_none]
  intro hnone
  obtain ⟨hnamed, hapart⟩ := defect?_eq_none_iff.1 hnone hoption
  cases h with
  | nameless hlong hshort => rcases hnamed.named with h | h <;> contradiction
  | badLong h => exact absurd (hasBadLong_iff.2 h) (by simp [hnamed.long])
  | badShort hshort h => exact absurd (isBadShort_iff.2 h) (by simp [hnamed.short _ hshort])
  | shortTwice ho ho' hshort hsame => exact hapart _ ho ho' (.inr ⟨_, hsame, hshort⟩)
  | longTwice ho ho' hshort hnone' hsame => exact hapart _ ho ho' (.inl ⟨hnone', hshort, hsame⟩)

theorem defect?_eq_some_iff : e.defect? earlier index = some d ↔ e.FirstBroken earlier index d := by
  constructor
  · exact firstBroken_of_defect?
  · intro h
    obtain ⟨d', hd'⟩ := exists_defect?_of_breaks h.isOption h.breaks
    have h' := firstBroken_of_defect? hd'
    have hrank : d'.rank = d.rank := Nat.le_antisymm (h'.first d h.breaks) (h.first d' h'.breaks)
    rw [hd', h'.breaks.eq_of_rank_eq h.breaks hrank]

/-- Headings before an entry change at most the index that its defect quotes. -/
theorem defect?_unnumbered (earlier' : List Entry) (index' : Nat)
    (h : earlier.filter (!·.isHeading) = earlier'.filter (!·.isHeading)) :
    (e.defect? earlier index).map Defect.unnumbered =
      (e.defect? earlier' index').map Defect.unnumbered := by
  unfold defect?
  rw [h]
  split
  · rfl
  · split
    · rfl
    · rfl

end Entry

namespace Table

/-- The options of a table, without the headings. -/
def options (t : Table) : List Entry := t.filter (!·.isHeading)

/-- The rules for the options of a table: each has a name, no name is taken for anything else on
the command line, no short name stands for two options, and no long name for two options that have
no short one. -/
structure WellFormed (t : Table) : Prop where
  named : ∀ e ∈ t.options, e.short ≠ none ∨ e.long ≠ ""
  long : ∀ e ∈ t.options, e.long.toList.head? ≠ some '-' ∧ '=' ∉ e.long.toList
  short : ∀ e ∈ t.options, ∀ c, e.short = some c → c ≠ '-' ∧ Text.isBlank c = false
  shorts : (t.options.filterMap (·.short)).Nodup
  longs : ((t.options.filter (·.short = none)).map (·.long)).Nodup

variable {t : Table} {e : Entry} {d : Defect}

theorem mem_options_iff : e ∈ t.options ↔ e ∈ t ∧ e.isHeading = false := by
  simp [options]

theorem options_concat_of_heading (h : e.isHeading = true) (t : Table) :
    options (t ++ [e]) = t.options := by
  simp [options, h]

theorem options_concat_of_option (h : e.isHeading = false) (t : Table) :
    options (t ++ [e]) = t.options ++ [e] := by
  simp [options, h]

/-- No two options clash exactly if no name stands twice in the lists of names. -/
theorem pairwise_not_clashes_iff :
    t.options.Pairwise (fun e o => ¬ e.Clashes o) ↔
      (t.options.filterMap (·.short)).Nodup ∧
        ((t.options.filter (·.short = none)).map (·.long)).Nodup := by
  rw [List.Nodup, List.Nodup, List.pairwise_filterMap, List.pairwise_map, List.pairwise_filter,
    ← List.pairwise_and_iff]
  refine List.Pairwise.iff ?_
  intro e o
  constructor
  · intro hapart
    refine ⟨fun c hc c' hc' heq => hapart (.inr ⟨c, hc, heq ▸ hc'⟩), fun hno hno' heq => ?_⟩
    exact hapart (.inl ⟨by simpa using hno, by simpa using hno', heq⟩)
  · rintro ⟨hshorts, hlongs⟩ (⟨hno, hno', hlong⟩ | ⟨c, hc, hc'⟩)
    · exact hlongs (by simpa using hno) (by simpa using hno') hlong
    · exact hshorts c hc c hc' rfl

theorem wellFormed_iff_wellNamed : t.WellFormed ↔ t.WellNamed := by
  constructor
  · intro h
    refine ⟨fun e hmem hoption => ?_, fun i j e o hlt hget hget' hoption hoption' => ?_⟩
    · have he := mem_options_iff.2 ⟨hmem, hoption⟩
      exact Entry.wellNamed_iff_rules.2 ⟨h.named e he, h.long e he, h.short e he⟩
    · have hapart := pairwise_not_clashes_iff.2 ⟨h.shorts, h.longs⟩
      rw [options, List.pairwise_filter] at hapart
      exact rel_of_pairwise hapart hlt hget hget' (by simp [hoption]) (by simp [hoption'])
  · intro h
    have hapart : t.options.Pairwise fun e o => ¬ e.Clashes o := by
      rw [options, List.pairwise_filter, List.pairwise_iff_getElem]
      intro i j hi hj hlt hoption hoption'
      exact h.apart i j _ _ hlt (List.getElem?_eq_getElem hi) (List.getElem?_eq_getElem hj)
        (by simpa using hoption) (by simpa using hoption')
    have hrules (e : Entry) (he : e ∈ t.options) :=
      have ⟨hmem, hoption⟩ := mem_options_iff.1 he
      Entry.wellNamed_iff_rules.1 (h.entries e hmem hoption)
    obtain ⟨hshorts, hlongs⟩ := pairwise_not_clashes_iff.1 hapart
    exact ⟨fun e he => (hrules e he).1, fun e he => (hrules e he).2.1,
      fun e he => (hrules e he).2.2, hshorts, hlongs⟩

/-- The checks of a longer table are those of the shorter one, and then those of the added entry. -/
theorem defect?_concat (t : Table) (e : Entry) :
    (t ++ [e]).defect? = t.defect?.or (e.defect? t t.length) := by
  have hsame : ∀ x ∈ t.zipIdx,
      x.1.defect? ((t ++ [e]).take x.2) x.2 = x.1.defect? (t.take x.2) x.2 := by
    intro x hx
    obtain ⟨hlt, -⟩ := List.getElem?_eq_some_iff.1 (List.mem_zipIdx_iff_getElem?.1 hx)
    rw [List.take_append_of_le_length (Nat.le_of_lt hlt)]
  have hbefore :
      t.zipIdx.findSome? (fun x => x.1.defect? ((t ++ [e]).take x.2) x.2) = t.defect? := by
    rw [← List.head?_filterMap, List.filterMap_congr hsame, List.head?_filterMap]
    rfl
  rw [defect?, List.zipIdx_append, List.findSome?_append, hbefore]
  simp

/-- Nothing that is added to a table with a defect changes what is said of it. -/
theorem defect?_append_of_some (h : t.defect? = some d) (more : Table) :
    (t ++ more).defect? = some d := by
  induction more using List.reverseRecOn with
  | nil => rwa [List.append_nil]
  | append_singleton more e ih =>
    rw [← List.append_assoc, defect?_concat, ih, Option.some_or]

/-- The defect of a table is that of the first entry that has one. -/
theorem defect?_eq_some_iff_exists :
    t.defect? = some d ↔ ∃ before e after, t = before ++ e :: after ∧
      Table.defect? before = none ∧ e.defect? before before.length = some d := by
  constructor
  · intro h
    induction t using List.reverseRecOn with
    | nil => cases h
    | append_singleton t e ih =>
      rw [defect?_concat, Option.or_eq_some_iff] at h
      rcases h with h | ⟨hnone, h⟩
      · obtain ⟨before, e', after, rfl, hbefore, hd⟩ := ih h
        exact ⟨before, e', after ++ [e], by simp, hbefore, hd⟩
      · exact ⟨t, e, [], rfl, hnone, h⟩
  · rintro ⟨before, e, after, rfl, hbefore, hd⟩
    have hfirst : Table.defect? (before ++ [e]) = some d := by
      rw [defect?_concat, hbefore, Option.none_or, hd]
    have hall := defect?_append_of_some hfirst after
    rwa [List.append_assoc, List.singleton_append] at hall

theorem defect?_eq_none_iff_wellFormed : t.defect? = none ↔ t.WellFormed := by
  rw [wellFormed_iff_wellNamed, defect?_eq_none_iff_wellNamed]

/-- What is said of a table depends on its options alone, but for the index. -/
theorem defect?_options (t : Table) :
    t.defect?.map Defect.unnumbered = (Table.defect? t.options).map Defect.unnumbered := by
  induction t using List.reverseRecOn with
  | nil => rfl
  | append_singleton t e ih =>
    rw [defect?_concat, Option.map_or, ih]
    by_cases hheading : e.isHeading = true
    · have hnone : e.defect? t t.length = none := by simp [Entry.defect?, hheading]
      rw [options_concat_of_heading hheading, hnone, Option.map_none, Option.or_none]
    · rw [options_concat_of_option (by simpa using hheading), defect?_concat, Option.map_or,
        Entry.defect?_unnumbered (options t) (options t).length (by simp [options])]

/-- The checks accept exactly the well-formed tables. Of any other table they find the first entry
with which the table is no longer well-formed, and the first rule that this entry breaks. Entries
behind it change nothing, and headings at most the index that is quoted. -/
theorem firstDefect (t : Table) :
    (t.defect? = none ↔ t.WellFormed) ∧
      (∀ d, t.defect? = some d ↔ ∃ before e after, t = before ++ e :: after ∧
        WellFormed before ∧ ¬ WellFormed (before ++ [e]) ∧
          e.FirstBroken before before.length d) ∧
      (∀ d more, t.defect? = some d → (t ++ more).defect? = some d) ∧
      (∀ t' : Table, t'.options = t.options → t'.defect? = t.defect? ∨
        ∃ i j, t'.defect? = some (.nameless i) ∧ t.defect? = some (.nameless j)) := by
  refine ⟨defect?_eq_none_iff_wellFormed, fun d => ?_,
    fun d more h => defect?_append_of_some h more, fun t' hoptions => ?_⟩
  · rw [defect?_eq_some_iff_exists]
    constructor
    · rintro ⟨before, e, after, ht, hbefore, hd⟩
      have hbroken : Table.defect? (before ++ [e]) = some d := by
        rw [defect?_concat, hbefore, Option.none_or, hd]
      refine ⟨before, e, after, ht, defect?_eq_none_iff_wellFormed.1 hbefore, fun hwell => ?_,
        Entry.defect?_eq_some_iff.1 hd⟩
      rw [defect?_eq_none_iff_wellFormed.2 hwell] at hbroken
      cases hbroken
    · rintro ⟨before, e, after, ht, hbefore, -, hfirst⟩
      exact ⟨before, e, after, ht, defect?_eq_none_iff_wellFormed.2 hbefore,
        Entry.defect?_eq_some_iff.2 hfirst⟩
  · have hsame : t'.defect?.map Defect.unnumbered = t.defect?.map Defect.unnumbered := by
      rw [defect?_options, hoptions, ← defect?_options]
    cases hd' : t'.defect? with
    | none =>
      rw [hd', Option.map_none] at hsame
      exact .inl (Option.map_eq_none_iff.1 hsame.symm).symm
    | some d' =>
      rw [hd', Option.map_some] at hsame
      obtain ⟨d, hd, hunnumbered⟩ := Option.map_eq_some_iff.1 hsame.symm
      rw [hd]
      rcases Defect.eq_or_nameless_of_unnumbered_eq hunnumbered with rfl | ⟨i, j, rfl, rfl⟩
      · exact .inl rfl
      · exact .inr ⟨j, i, rfl, rfl⟩

/-- A table that declares one long name twice, before an option that has no name at all. -/
def declaredTwice : Table :=
  [{ kind := .heading, help := "Fields" }, { kind := .text, long := "comment" },
   { kind := .flag, long := "comment", short := some 'c' }, { kind := .text, long := "comment" },
   { kind := .flag }]

/-- The second declaration that has no short name either is what is said of the table, whatever
else it declares. -/
theorem firstDefect_declaredTwice :
    declaredTwice.defect? = some (.longTwice "comment") ∧ ¬ declaredTwice.WellFormed ∧
      ∀ more : Table, (declaredTwice ++ more).defect? = some (.longTwice "comment") := by
  have hdefect : declaredTwice.defect? = some (.longTwice "comment") := by decide +kernel
  obtain ⟨haccepted, -, hlonger, -⟩ := firstDefect declaredTwice
  refine ⟨hdefect, fun hwell => ?_, fun more => hlonger _ more hdefect⟩
  rw [haccepted.2 hwell] at hdefect
  cases hdefect

end Table

end CommandLine
