import CommandLine.Proofs.Text.Wrapping

/-!
# Pieces that are too long

A piece may have more than `limit` characters and still hold a space between two words. The word
at its front is too long then, and with it the wrapping ended. Such a piece comes out exactly of
the lines in which something follows a word that is too long (`exists_overlong_iff`).

## Strategy

A line that is not broken at all is looked at up to its first space behind the front
(`hasInnerSpace_iff_overruns`). A break before the word that is too long changes nothing
(`overruns_of_rest`, `overruns_rest`), and none can fall behind it.
-/

namespace CommandLine.Text

/-- The text has a character that is no space. -/
def HasWord (text : List Char) : Prop := ∃ c ∈ text, c ≠ ' '

/-- A space stands between two characters that are none. -/
def HasInnerSpace (text : List Char) : Prop :=
  ∃ before after, text = before ++ ' ' :: after ∧ HasWord before ∧ HasWord after

/-- In the line a word of more than `limit` characters is followed by another word. If a single
space stands before it at the front of the line, `limit` characters are too many. -/
def Overruns (limit : Nat) (line : List Char) : Prop :=
  ∃ before word after, line = before ++ word ++ ' ' :: after ∧ ' ' ∉ word ∧ HasWord after ∧
    (limit < word.length ∨ before = [' '] ∧ limit ≤ word.length)

/-! ## Words at the front of a text -/

/-- A text without spaces ends before the first space of what it starts. -/
theorem length_le_of_append_eq {word more before after : List Char} (h : ' ' ∉ word)
    (heq : word ++ more = before ++ ' ' :: after) : word.length ≤ before.length := by
  rcases List.append_eq_append_iff.1 heq with ⟨_, hword, -⟩ | ⟨between, hword, hmore⟩
  · rw [hword, List.length_append]
    exact Nat.le_add_right _ _
  · cases between with
    | nil => simp [hword]
    | cons c between =>
      have hc : ' ' = c := (List.cons.inj hmore).1
      rw [hword, ← hc] at h
      exact absurd (by simp) h

theorem startsWithWord_append {word : List Char} (hne : word ≠ []) (h : ' ' ∉ word)
    (more : List Char) : StartsWithWord (word ++ more) := by
  obtain ⟨c, word, rfl⟩ := List.exists_cons_of_ne_nil hne
  exact ⟨c, word ++ more, rfl, fun hc => h (hc ▸ List.mem_cons_self)⟩

/-- Spaces are dropped up to the next word. -/
theorem dropSpaces_append {text : List Char} (h : StartsWithWord text) (before : List Char) :
    dropSpaces (before ++ text) = dropSpaces before ++ text := by
  have hkept := dropSpaces_of_startsWithWord h
  unfold dropSpaces at hkept ⊢
  rw [List.dropWhile_append]
  split
  · rename_i hall
    rw [hkept, List.isEmpty_iff.1 hall, List.nil_append]
  · rfl

theorem exists_first_space (before after : List Char) :
    ∃ word more, before ++ ' ' :: after = word ++ ' ' :: more ∧ ' ' ∉ word ∧ after ⊆ more := by
  induction before with
  | nil => exact ⟨[], after, rfl, List.not_mem_nil, List.Subset.refl _⟩
  | cons c before ih =>
    by_cases hc : c = ' '
    · refine ⟨[], before ++ ' ' :: after, by rw [hc]; rfl, List.not_mem_nil, ?_⟩
      intro d hd
      exact List.mem_append_right _ (List.mem_cons_of_mem _ hd)
    · obtain ⟨word, more, heq, hfree, hsub⟩ := ih
      refine ⟨c :: word, more, by rw [List.cons_append, heq]; rfl, ?_, hsub⟩
      intro hmem
      rcases List.mem_cons.1 hmem with h | h
      · exact hc h.symm
      · exact hfree h

/-! ## A line that is not broken -/

theorem Overruns.lt_length {limit : Nat} {line : List Char} (h : Overruns limit line) :
    limit < line.length := by
  obtain ⟨before, word, after, rfl, -, -, hlong | ⟨rfl, hlong⟩⟩ := h
  all_goals
    simp only [List.length_append, List.length_cons]
    omega

theorem Overruns.word_ne_nil {limit : Nat} {word before : List Char} (hpos : 0 < limit)
    (h : limit < word.length ∨ before = [' '] ∧ limit ≤ word.length) : word ≠ [] := by
  rintro rfl
  rw [List.length_nil] at h
  omega

/-- A window without spaces behind its front lies within the first word, and the space at the
front if there is one. -/
theorem le_of_space_notMem_take {limit : Nat} {word more : List Char}
    (h : ' ' ∉ (word ++ ' ' :: more).take limit) : limit ≤ word.length := by
  by_contra hshort
  apply h
  obtain ⟨n, hn⟩ := Nat.exists_eq_add_of_lt (Nat.lt_of_not_le hshort)
  rw [hn, Nat.add_assoc, List.take_append, List.take_of_length_le (by omega),
    Nat.add_sub_cancel_left, List.take_succ_cons]
  exact List.mem_append_right _ List.mem_cons_self

/-- A line that is too long and has no place for a break holds a space between two words exactly
if it overruns. -/
theorem hasInnerSpace_iff_overruns {limit : Nat} {line : List Char} (hpos : 0 < limit)
    (hno : ' ' ∉ (line.take (limit + 1)).tail) : HasInnerSpace line ↔ Overruns limit line := by
  constructor
  · rintro ⟨before, after, rfl, hbefore, hafter⟩
    cases before with
    | nil => obtain ⟨c, hc, -⟩ := hbefore; cases hc
    | cons c before =>
      obtain ⟨word, more, heq, hfree, hsub⟩ := exists_first_space before after
      have hmore : HasWord more := by
        obtain ⟨d, hd, hne⟩ := hafter
        exact ⟨d, hsub hd, hne⟩
      have hlong : limit ≤ word.length := by
        rw [List.cons_append, heq, List.take_succ_cons, List.tail_cons] at hno
        exact le_of_space_notMem_take hno
      rw [List.cons_append, heq]
      by_cases hc : c = ' '
      · exact ⟨[' '], word, more, by rw [hc]; rfl, hfree, hmore, .inr ⟨rfl, hlong⟩⟩
      · refine ⟨[], c :: word, more, rfl, ?_, hmore, .inl (Nat.lt_succ_of_le hlong)⟩
        intro hmem
        rcases List.mem_cons.1 hmem with h | h
        · exact hc h.symm
        · exact hfree h
  · rintro ⟨before, word, after, rfl, hfree, hafter, hlong⟩
    obtain ⟨c, hc⟩ := List.exists_mem_of_ne_nil word (Overruns.word_ne_nil hpos hlong)
    exact ⟨before ++ word, after, rfl,
      ⟨c, List.mem_append_right _ hc, fun h => hfree (h ▸ hc)⟩, hafter⟩

/-! ## A line that is broken -/

/-- What follows a break starts with no space, so that it overruns only if the line does. -/
theorem overruns_of_rest {limit : Nat} {line before after beyond : List Char}
    (h : Parts limit line before after beyond)
    (hover : Overruns limit (dropSpaces (after ++ beyond))) : Overruns limit line := by
  obtain ⟨front, word, more, heq, hfree, hmore, hlong⟩ := hover
  obtain ⟨n, hn⟩ := exists_spaces_dropSpaces (after ++ beyond)
  rcases hlong with hlong | ⟨rfl, -⟩
  · refine ⟨before ++ ' ' :: List.replicate n ' ' ++ front, word, more, ?_, hfree, hmore,
      .inl hlong⟩
    rw [h.line_eq, hn, heq]
    simp only [List.append_assoc, List.cons_append]
  · have hne : dropSpaces (after ++ beyond) ≠ [] := by
      rw [heq]
      simp
    obtain ⟨c, rest, hstarts, hc⟩ := startsWithWord_dropSpaces hne
    rw [heq] at hstarts
    exact absurd (List.cons.inj hstarts).1.symm hc

/-- A word that is too long does not fit before a break, so that it is left in what follows. -/
theorem overruns_rest {limit : Nat} {line before after beyond : List Char} (hpos : 0 < limit)
    (h : Parts limit line before after beyond) (hover : Overruns limit line) :
    Overruns limit (dropSpaces (after ++ beyond)) := by
  obtain ⟨front, word, more, heq, hfree, hmore, hlong⟩ := hover
  have hne := Overruns.word_ne_nil hpos hlong
  have hlimit := h.length_eq
  rw [h.line_eq, List.append_assoc] at heq
  rcases List.append_eq_append_iff.1 heq with
    ⟨between, hfront, hbehind⟩ | ⟨between, hbefore, hword⟩
  · cases between with
    | nil =>
      -- the break would be the first character of the word
      have hstart : word ++ ' ' :: more = [] ++ ' ' :: (after ++ beyond) := hbehind.symm
      have hle := length_le_of_append_eq hfree hstart
      exact absurd (List.length_eq_zero_iff.1 (Nat.le_zero.1 hle)) hne
    | cons c between =>
      have hrest : after ++ beyond = between ++ (word ++ ' ' :: more) := (List.cons.inj hbehind).2
      have hlong : limit < word.length := by
        rcases hlong with hlong | ⟨rfl, -⟩
        · exact hlong
        -- the break cannot fall behind a front of one character
        · have hsize := congrArg List.length hfront
          have hbefore := List.length_pos_of_ne_nil h.before_ne_nil
          simp only [List.length_append, List.length_cons, List.length_nil] at hsize
          omega
      rw [hrest, dropSpaces_append (startsWithWord_append hne hfree _)]
      exact ⟨dropSpaces between, word, more, (List.append_assoc _ _ _).symm, hfree, hmore,
        .inl hlong⟩
  -- the word would end before the break
  · have hle := length_le_of_append_eq hfree hword
    have hsize := congrArg List.length hbefore
    rw [List.length_append] at hsize
    rcases hlong with hlong | ⟨rfl, hlong⟩
    · omega
    · rw [List.length_singleton] at hsize
      omega

/-- Some piece is too long and holds a space between two words, exactly if the line overruns. -/
theorem exists_overlong_iff {limit : Nat} (hpos : 0 < limit) (line : List Char) :
    (∃ piece ∈ wrap limit line, limit < piece.length ∧ HasInnerSpace piece) ↔
      Overruns limit line := by
  fun_induction wrap limit line with
  | case1 line hshort =>
    simp only [List.mem_singleton, exists_eq_left]
    constructor
    · exact fun h => absurd h.1 (Nat.not_lt_of_le hshort)
    · exact fun hover => absurd hover.lt_length (Nat.not_lt_of_le hshort)
  | case2 line hlong hnone =>
    rw [← hasInnerSpace_iff_overruns hpos (space_notMem_of_breakAt? hnone)]
    simp only [List.mem_singleton, exists_eq_left]
    exact and_iff_right (Nat.lt_of_not_le hlong)
  | case3 line hlong i hbreak rest ih =>
    obtain ⟨before, after, beyond, hparts, hfront, hrest⟩ :=
      exists_parts (Nat.lt_of_not_le hlong) hbreak
    have hfits : (dropEndSpaces (line.take i)).length ≤ limit := by
      rw [hfront]
      exact hparts.length_le
    -- the piece before the break is not too long, so that it must be one of those behind it
    have hover : Overruns limit rest ↔ Overruns limit line := by
      show Overruns limit (dropSpaces (line.drop i)) ↔ _
      rw [hrest]
      exact ⟨overruns_of_rest hparts, overruns_rest hpos hparts⟩
    rw [← hover, List.exists_mem_cons_iff,
      or_iff_right fun h => absurd h.1 (Nat.not_lt_of_le hfits)]
    by_cases hempty : rest = []
    · have hnone : ¬ Overruns limit rest := by
        intro hover
        have hlength := hover.lt_length
        rw [hempty] at hlength
        cases hlength
      rw [if_pos (by simp [hempty])]
      simp [hnone]
    · rw [if_neg (by simpa using hempty)]
      exact ih

end CommandLine.Text
