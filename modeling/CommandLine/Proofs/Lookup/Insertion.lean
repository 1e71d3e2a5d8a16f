import CommandLine.Proofs.Lookup.Reordering
import CommandLine.Usage.Row

/-!
# An option added to a table

A table may be given another option at any place, and no text that named an old option comes to name
a different old one. What the text finds instead, if anything changes, is the new option, or an
ambiguity that lists the new option among all old candidates (`Table.gains_resolve`).

## Strategy

The old options read every text as before (`Table.reading?_insert`), so that the hits are the old
ones with at most one put in between (`Table.exists_hits_insert`). What follows for the choice among
the hits is `Lookup.gains_ofHits`.
-/

namespace CommandLine

/-! ## What may change -/

/-- The place of what stood at `i` after an entry has been put in at `n`. -/
def placeAfter (n i : Nat) : Nat := if i < n then i else i + 1

theorem placeAfter_of_lt {n i : Nat} (h : i < n) : placeAfter n i = i := if_pos h

theorem placeAfter_of_le {n i : Nat} (h : n ≤ i) : placeAfter n i = i + 1 := if_neg (Nat.not_lt.2 h)

/-- The hit at its place after an entry has been put in at `n`. -/
def Hit.shifted (n : Nat) (h : Hit) : Hit := { h with index := placeAfter n h.index }

theorem Hit.reading_shifted (n : Nat) (h : Hit) : (h.shifted n).reading = h.reading := rfl

/-- The options between which a text leaves the choice. -/
def Lookup.candidates : Lookup → List Hit
  | unknown => []
  | found hit => [hit]
  | ambiguous hits => hits

/-- What a text may find in the table `t` instead of what it found before the entry `e` was put in
at `n`. -/
inductive Table.Gains (t : Table) (n : Nat) (e : Entry) (text : List Char) : Lookup → Lookup → Prop
  | same (found : Lookup) : Gains t n e text found (found.map (Hit.shifted n))
  /-- The text is a name of the new option in full. -/
  | named {found : Lookup} {r : Reading} (hname : text ∈ t.wholeNames e) :
      Gains t n e text found (.found ⟨n, e, r⟩)
  | discovered {r : Reading} : Gains t n e text .unknown (.found ⟨n, e, r⟩)
  /-- The text was an abbreviation, and the new option joins the candidates at its place. -/
  | contested {found : Lookup} {front back : List Hit} {r : Reading}
      (hcandidates : found.candidates = front ++ back) (hne : found.candidates ≠ [])
      (hpart : ∀ h ∈ found.candidates, h.reading.isWhole = false)
      (hfront : ∀ h ∈ front, h.index < n) (hback : ∀ h ∈ back, n ≤ h.index) :
      Gains t n e text found
        (.ambiguous (front.map (Hit.shifted n) ++ ⟨n, e, r⟩ :: back.map (Hit.shifted n)))

/-! ## The choice among the hits -/

namespace Lookup

variable {n : Nat} {front back hits : List Hit} {hit : Hit}

theorem isWhole_shifted (n : Nat) :
    (fun h : Hit => h.reading.isWhole) ∘ Hit.shifted n = fun h : Hit => h.reading.isWhole := rfl

/-- Without a whole reading all hits are candidates. -/
theorem candidates_ofHits (hpart : ∀ h ∈ hits, h.reading.isWhole = false) :
    (ofHits hits).candidates = hits := by
  rw [ofHits_of_not_whole hpart]
  match hits with
  | [] => rfl
  | [_] => rfl
  | _ :: _ :: _ => rfl

theorem ofHits_of_two_le (hpart : ∀ h ∈ hits, h.reading.isWhole = false)
    (htwo : 2 ≤ hits.length) : ofHits hits = .ambiguous hits := by
  rw [ofHits_of_not_whole hpart]
  match hits, htwo with
  | _ :: _ :: _, _ => rfl

/-- Among abbreviations only, a further one is found if it is alone, and else joins them. -/
theorem gains_ofHits_of_not_whole {t : Table} {e : Entry} {text : List Char} {r : Reading}
    (hr : r.isWhole = false) (hpart : ∀ h ∈ front ++ back, h.reading.isWhole = false)
    (hfront : ∀ h ∈ front, h.index < n) (hback : ∀ h ∈ back, n ≤ h.index) :
    t.Gains n e text (ofHits (front ++ back))
      (ofHits (front.map (Hit.shifted n) ++ ⟨n, e, r⟩ :: back.map (Hit.shifted n))) := by
  by_cases hempty : front ++ back = []
  · obtain ⟨rfl, rfl⟩ := List.append_eq_nil_iff.1 hempty
    have hone : ofHits [⟨n, e, r⟩] = .found ⟨n, e, r⟩ := ofHits_singleton _
    exact hone ▸ .discovered
  · have hcandidates : (ofHits (front ++ back)).candidates = front ++ back :=
      candidates_ofHits hpart
    have hpart' : ∀ h ∈ front.map (Hit.shifted n) ++ ⟨n, e, r⟩ :: back.map (Hit.shifted n),
        h.reading.isWhole = false := by
      intro h hmem
      rcases List.mem_append.1 hmem with hmem | hmem
      · obtain ⟨h', hmem', rfl⟩ := List.mem_map.1 hmem
        exact hpart h' (List.mem_append_left back hmem')
      · rcases List.mem_cons.1 hmem with rfl | hmem
        · exact hr
        · obtain ⟨h', hmem', rfl⟩ := List.mem_map.1 hmem
          exact hpart h' (List.mem_append_right front hmem')
    have htwo : 2 ≤ (front.map (Hit.shifted n) ++
        ⟨n, e, r⟩ :: back.map (Hit.shifted n)).length := by
      have hlength : 1 ≤ (front ++ back).length := List.length_pos_iff.2 hempty
      simp only [List.length_append, List.length_cons, List.length_map] at hlength ⊢
      omega
    rw [ofHits_of_two_le hpart' htwo]
    exact .contested hcandidates (by rwa [hcandidates]) (by rwa [hcandidates]) hfront hback

/-- The choice when a hit of the new option is put in between the others. -/
theorem gains_ofHits {t : Table} {e : Entry} {text : List Char} {r : Reading}
    (hname : r.isWhole = true → text ∈ t.wholeNames e)
    (hfront : ∀ h ∈ front, h.index < n) (hback : ∀ h ∈ back, n ≤ h.index) :
    t.Gains n e text (ofHits (front ++ back))
      (ofHits (front.map (Hit.shifted n) ++ ⟨n, e, r⟩ :: back.map (Hit.shifted n))) := by
  have hold : (front ++ back).find? (·.reading.isWhole) =
      (front.find? (·.reading.isWhole)).or (back.find? (·.reading.isWhole)) := List.find?_append
  have hnew : (front.map (Hit.shifted n) ++ ⟨n, e, r⟩ :: back.map (Hit.shifted n)).find?
        (·.reading.isWhole) =
      ((front.find? (·.reading.isWhole)).map (Hit.shifted n)).or
        ((⟨n, e, r⟩ :: back.map (Hit.shifted n)).find? (·.reading.isWhole)) := by
    rw [List.find?_append, List.find?_map, isWhole_shifted]
  -- the first whole reading stands before the new option, is that, or stands behind it
  cases hbefore : front.find? (·.reading.isWhole) with
  | some hit =>
    rw [hbefore, Option.some_or] at hold
    rw [hbefore, Option.map_some, Option.some_or] at hnew
    rw [ofHits_of_find? hold, ofHits_of_find? hnew]
    exact .same (.found hit)
  | none =>
    rw [hbefore, Option.none_or] at hold
    rw [hbefore, Option.map_none, Option.none_or] at hnew
    cases hwhole : r.isWhole with
    | true =>
      rw [List.find?_cons_of_pos (by simpa using hwhole)] at hnew
      rw [ofHits_of_find? hnew]
      exact .named (hname hwhole)
    | false =>
      rw [List.find?_cons_of_neg (by simp [hwhole]), List.find?_map, isWhole_shifted] at hnew
      cases hbehind : back.find? (·.reading.isWhole) with
      | some hit =>
        rw [hbehind] at hold
        rw [hbehind, Option.map_some] at hnew
        rw [ofHits_of_find? hold, ofHits_of_find? hnew]
        exact .same (.found hit)
      | none =>
        rw [List.find?_eq_none] at hbefore hbehind
        refine gains_ofHits_of_not_whole hwhole (fun h hmem => ?_) hfront hback
        rcases List.mem_append.1 hmem with hmem | hmem
        · simpa using hbefore h hmem
        · simpa using hbehind h hmem

end Lookup

/-! ## The hits of a table with a new option -/

namespace Table

variable {t t' before after : Table} {text name : List Char} {e o : Entry} {n : Nat}

theorem hasLong_insert (before after : Table) (e : Entry) (name : List Char) :
    hasLong (before ++ e :: after) name =
      (hasLong (before ++ after) name || (!e.isHeading && e.long.toList == name)) := by
  simp only [hasLong, List.any_append, List.any_cons]
  cases before.any _ <;> cases after.any _ <;> simp

/-- A negatable option whose whole name is `no-` reads a text that does not start so in the same way
whether it is held against that name or against the empty one. -/
theorem reading?_of_long_eq_no (htext : text ≠ []) (hnone : afterNo? text = none)
    (hnamed : o.IsNamed) (hneg : o.negatable = true) (hlong : o.long.toList = ['n', 'o', '-']) :
    t.reading? text o =
      if text.isPrefixOf ['n', 'o', '-'] then some (.abbreviation .long) else none := by
  rcases facingName_cases t text o with hfacing | ⟨positive, hfacing, hlong', -, -, -⟩
  · have hne : text ≠ ['n', 'o', '-'] := by
      rintro rfl
      cases hnone
    rw [reading?_of_facingName hnamed hfacing, hlong, if_neg hne]
    by_cases hstart : text.isPrefixOf ['n', 'o', '-'] = true
    · rw [if_pos hstart, if_pos hstart]
      rfl
    · rw [if_neg hstart, if_neg hstart, if_neg (by simp [hneg]), if_neg hstart, hnone]
  · obtain rfl : positive = [] := by
      rw [hlong'] at hlong
      simpa [underNo] using hlong
    rw [reading?_of_facingName hnamed hfacing, if_neg htext, if_neg (by simpa using htext),
      if_neg (by simp [hneg]), hnone]
    rfl

/-- An option declared as `no-` reads a text in the same way whether or not any option goes by the
empty name. -/
theorem reading?_eq_of_opposite?_nil (htext : text ≠ []) (hopp : o.opposite? = some []) :
    t'.reading? text o = t.reading? text o := by
  unfold Entry.opposite? at hopp
  split at hopp
  · rename_i hneg
    have hlong : o.long.toList = ['n', 'o', '-'] := eq_underNo_of_afterNo? hopp
    by_cases hnamed : o.IsNamed
    · cases hnone : afterNo? text with
      | none =>
        rw [reading?_of_long_eq_no htext hnone hnamed hneg hlong,
          reading?_of_long_eq_no htext hnone hnamed hneg hlong]
      | some rest =>
        -- the text is held against the declared name in either table
        have htext' := eq_underNo_of_afterNo? hnone
        have hfacing (t : Table) : t.facingName text o = (o.long.toList, false) :=
          htext' ▸ facingName_underNo t rest o
        rw [reading?_of_facingName hnamed (hfacing t'), reading?_of_facingName hnamed (hfacing t)]
    · have hnot (t : Table) : t.reading? text o = none :=
        Option.eq_none_iff_forall_not_mem.2 fun r hr => hnamed (isNamed_of_reading? hr)
      rw [hnot t', hnot t]
  · cases hopp

/-- A new option that is not declared as the opposite of an old one leaves alone how that reads a
text. -/
theorem reading?_insert (htext : text ≠ [])
    (hopposite : e.IsNamed → o.opposite? ≠ some e.long.toList) :
    reading? (before ++ e :: after) text o = reading? (before ++ after) text o := by
  by_cases hclash : e.isHeading = false ∧ o.opposite? = some e.long.toList
  -- the new option has no long name then, and the old one is declared as `no-`
  · obtain ⟨hoption, hopp⟩ := hclash
    have hempty : e.long = "" := by
      by_contra hne
      exact hopposite ⟨hoption, hne⟩ hopp
    rw [hempty] at hopp
    exact reading?_eq_of_opposite?_nil htext hopp
  · apply reading?_congr
    intro positive hneg hafter
    have hpositive : o.opposite? = some positive := by
      rw [Entry.opposite?, if_pos hneg, hafter]
    have hother : (!e.isHeading && e.long.toList == positive) = false := by
      rw [Bool.eq_false_iff]
      intro hboth
      simp only [Bool.and_eq_true, Bool.not_eq_true', beq_iff_eq] at hboth
      exact hclash ⟨hboth.1, hboth.2 ▸ hpositive⟩
    rw [hasLong_insert, hother, Bool.or_false]

/-- The hits among options that stand at these places. -/
def hitsAmong (t : Table) (text : List Char) (placed : List (Entry × Nat)) : List Hit :=
  placed.filterMap fun x => (t.reading? text x.1).map (Hit.mk x.2 x.1)

theorem hits_eq_hitsAmong (t : Table) (text : List Char) :
    t.hits text = t.hitsAmong text t.zipIdx := rfl

theorem hitsAmong_append (t : Table) (text : List Char) (front back : List (Entry × Nat)) :
    t.hitsAmong text (front ++ back) = t.hitsAmong text front ++ t.hitsAmong text back :=
  List.filterMap_append

theorem hitsAmong_cons (t : Table) (text : List Char) (x : Entry × Nat)
    (more : List (Entry × Nat)) :
    t.hitsAmong text (x :: more) =
      (t.reading? text x.1).toList.map (Hit.mk x.2 x.1) ++ t.hitsAmong text more := by
  rw [hitsAmong, List.filterMap_cons]
  cases t.reading? text x.1 <;> rfl

/-- A hit stands at the place of an option. -/
theorem exists_place_of_mem_hitsAmong {placed : List (Entry × Nat)} {h : Hit}
    (hmem : h ∈ t.hitsAmong text placed) : ∃ x ∈ placed, h.index = x.2 := by
  obtain ⟨x, hx, hhit⟩ := List.mem_filterMap.1 hmem
  obtain ⟨r, -, rfl⟩ := Option.map_eq_some_iff.1 hhit
  exact ⟨x, hx, rfl⟩

/-- Options that read a text in two tables alike are hit in both, at their places there. -/
theorem hitsAmong_map_placeAfter {placed : List (Entry × Nat)}
    (hread : ∀ x ∈ placed, t'.reading? text x.1 = t.reading? text x.1) (n : Nat) :
    t'.hitsAmong text (placed.map (Prod.map id (placeAfter n))) =
      (t.hitsAmong text placed).map (Hit.shifted n) := by
  rw [hitsAmong, hitsAmong, List.filterMap_map, List.map_filterMap]
  refine List.filterMap_congr fun x hx => ?_
  simp only [Function.comp_apply, Prod.map_fst, Prod.map_snd, id_eq]
  rw [hread x hx, Option.map_map]
  rfl

/-- In front of a new option the places stay, and behind it they move by one. -/
theorem zipIdx_insert (before after : Table) (e : Entry) :
    (before ++ e :: after).zipIdx =
      before.zipIdx.map (Prod.map id (placeAfter before.length)) ++
        (e, before.length) ::
          (after.zipIdx before.length).map (Prod.map id (placeAfter before.length)) := by
  rw [List.zipIdx_append, List.zipIdx_cons, Nat.zero_add, List.zipIdx_succ]
  congr 1
  · symm
    rw [List.map_congr_left (g := id), List.map_id]
    intro x hx
    have hlt : x.2 < before.length := by simpa using List.snd_lt_add_of_mem_zipIdx hx
    exact Prod.ext rfl (placeAfter_of_lt hlt)
  · congr 1
    refine List.map_congr_left fun x hx => ?_
    exact Prod.ext rfl (placeAfter_of_le (List.le_snd_of_mem_zipIdx hx)).symm

/-- The hits of a table with a new option are the old ones, at their new places, and the reading of
the new option between them. -/
theorem exists_hits_insert (htext : text ≠ [])
    (hopposite : e.IsNamed → ∀ o ∈ before ++ after, o.opposite? ≠ some e.long.toList) :
    ∃ front back, hits (before ++ after) text = front ++ back ∧
      (∀ h ∈ front, h.index < before.length) ∧ (∀ h ∈ back, before.length ≤ h.index) ∧
      hits (before ++ e :: after) text =
        front.map (Hit.shifted before.length) ++
          ((reading? (before ++ e :: after) text e).toList.map (Hit.mk before.length e) ++
            back.map (Hit.shifted before.length)) := by
  have hread : ∀ o ∈ before ++ after,
      reading? (before ++ e :: after) text o = reading? (before ++ after) text o :=
    fun o ho => reading?_insert htext fun hnamed => hopposite hnamed o ho
  refine ⟨hitsAmong (before ++ after) text before.zipIdx,
    hitsAmong (before ++ after) text (after.zipIdx before.length), ?_, ?_, ?_, ?_⟩
  · rw [hits_eq_hitsAmong, List.zipIdx_append, hitsAmong_append, Nat.zero_add]
  · intro h hmem
    obtain ⟨x, hx, hindex⟩ := exists_place_of_mem_hitsAmong hmem
    simpa [hindex] using List.snd_lt_add_of_mem_zipIdx hx
  · intro h hmem
    obtain ⟨x, hx, hindex⟩ := exists_place_of_mem_hitsAmong hmem
    exact hindex ▸ List.le_snd_of_mem_zipIdx hx
  · rw [hits_eq_hitsAmong, zipIdx_insert, hitsAmong_append, hitsAmong_cons,
      hitsAmong_map_placeAfter, hitsAmong_map_placeAfter]
    · intro x hx
      exact hread x.1 (List.mem_append_right before (List.fst_mem_of_mem_zipIdx hx))
    · intro x hx
      exact hread x.1 (List.mem_append_left after (List.fst_mem_of_mem_zipIdx hx))

/-- What a text finds in a table with a new option is what it found before, or the new option, which
it names in full or found nothing before. Or else it was an abbreviation, and is one of the new
option as well: then all old candidates stay, in their order, and the new option stands among them.
The new option may not be declared as the opposite of an old one. -/
theorem gains_resolve
    (hopposite : e.IsNamed → ∀ o ∈ before ++ after, o.opposite? ≠ some e.long.toList)
    (given : List Char) :
    let old := resolve (before ++ after) given
    let new := resolve (before ++ e :: after) given
    new.text = old.text ∧ new.attached = old.attached ∧
      Gains (before ++ e :: after) before.length e old.text old.found new.found := by
  refine ⟨rfl, rfl, ?_⟩
  simp only [resolve]
  by_cases htext : (splitAttached given).1 = []
  · rw [htext]
    exact .same .unknown
  · rw [lookup_of_ne_nil htext, lookup_of_ne_nil htext]
    obtain ⟨front, back, hold, hfront, hback, hnew⟩ := exists_hits_insert htext hopposite
    rw [hold, hnew]
    cases hread : reading? (before ++ e :: after) (splitAttached given).1 e with
    | none =>
      rw [Option.toList_none, List.map_nil, List.nil_append, ← List.map_append,
        Lookup.ofHits_map (Hit.reading_shifted _)]
      exact .same _
    | some r => exact Lookup.gains_ofHits (mem_wholeNames_of_whole hread) hfront hback

/-- The text that was enough for `sitename` is not any more. -/
theorem gains_resolve_among_sites :
    let sitename : Entry := { kind := .text, long := "sitename" }
    let siteurl : Entry := { kind := .text, long := "siteurl", negatable := true }
    let paged : Entry := { kind := .flag, long := "no-pager", negatable := true }
    (∀ o ∈ [sitename] ++ [paged], o.opposite? ≠ some siteurl.long.toList) ∧
      (resolve [sitename, paged] "site=x".toList).found =
        .found ⟨0, sitename, .abbreviation .long⟩ ∧
      (resolve [sitename, siteurl, paged] "site=x".toList).found =
        .ambiguous [⟨0, sitename, .abbreviation .long⟩, ⟨1, siteurl, .abbreviation .long⟩] ∧
      Gains [sitename, siteurl, paged] 1 siteurl "site".toList
        (resolve [sitename, paged] "site=x".toList).found
        (resolve [sitename, siteurl, paged] "site=x".toList).found := by
  intro sitename siteurl paged
  have hopposite : ∀ o ∈ [sitename] ++ [paged], o.opposite? ≠ some siteurl.long.toList := by
    decide +kernel
  refine ⟨hopposite, by decide +kernel, by decide +kernel, ?_⟩
  have hgains := @gains_resolve [sitename] [paged] siteurl (fun _ => hopposite) "site=x".toList
  exact hgains.2.2

end Table

end CommandLine
