import CommandLine.Text.Wrap
import Mathlib.Data.List.Basic

/-!
# What wrapping does to a line

Wrapping takes spaces out of a line and changes nothing else, and it takes them out as late as it
can: the next word would have been too much for every piece that was ended before it
(`exists_greedy_breaking`).

## Strategy

A `Breaking` keeps what the pieces alone do not tell, the number of spaces taken out at each
break. `wrap` is followed along its recursion: one break splits the line into what stands before
the break, the rest of the window that the break was searched in, and what lies beyond the window
(`exists_parts`).
-/

namespace CommandLine.Text

/-! ## Words -/

/-- The words of a text: the longest runs without spaces. -/
def words (text : List Char) : List (List Char) := (text.splitOn ' ').filter (· ≠ [])

/-- The characters before the first space. -/
def firstWord (text : List Char) : List Char := text.takeWhile (· ≠ ' ')

/-- The text starts with a character that is no space. -/
def StartsWithWord (text : List Char) : Prop := ∃ c more, text = c :: more ∧ c ≠ ' '

/-- No word goes across a space. -/
theorem words_append_space (a b : List Char) : words (a ++ ' ' :: b) = words a ++ words b := by
  unfold words
  rw [List.splitOn_append_cons_self, List.filter_append]

theorem words_append_spaces (a : List Char) (n : Nat) :
    words (a ++ List.replicate n ' ') = words a := by
  induction n with
  | zero => simp
  | succ n ih =>
    have hlast : a ++ List.replicate (n + 1) ' ' = (a ++ List.replicate n ' ') ++ ' ' :: [] := by
      rw [List.replicate_succ', List.append_assoc]
    have hnone : words [] = [] := by simp [words, List.splitOn_nil]
    rw [hlast, words_append_space, ih, hnone, List.append_nil]

theorem words_spaced (a b : List Char) {n : Nat} (h : 0 < n) :
    words (a ++ List.replicate n ' ' ++ b) = words a ++ words b := by
  obtain ⟨m, rfl⟩ := Nat.exists_eq_add_one.2 h
  rw [List.replicate_succ', ← List.append_assoc, List.append_assoc _ [' '], List.singleton_append,
    words_append_space, words_append_spaces]

theorem firstWord_append_space (a b : List Char) : firstWord (a ++ ' ' :: b) = firstWord a := by
  induction a with
  | nil => rfl
  | cons c a ih =>
    unfold firstWord at ih ⊢
    rw [List.cons_append, List.takeWhile_cons, List.takeWhile_cons, ih]

/-! ## Spaces at the ends -/

theorem exists_spaces_dropSpaces (text : List Char) :
    ∃ n, text = List.replicate n ' ' ++ dropSpaces text := by
  induction text with
  | nil => exact ⟨0, rfl⟩
  | cons c text ih =>
    by_cases hc : c = ' '
    · obtain ⟨n, hn⟩ := ih
      refine ⟨n + 1, ?_⟩
      have hdrop : dropSpaces (c :: text) = dropSpaces text := by simp [dropSpaces, hc]
      rw [hdrop, List.replicate_succ, List.cons_append, ← hn, hc]
    · exact ⟨0, by simp [dropSpaces, hc]⟩

theorem exists_dropEndSpaces_spaces (text : List Char) :
    ∃ n, text = dropEndSpaces text ++ List.replicate n ' ' := by
  obtain ⟨n, hn⟩ := exists_spaces_dropSpaces text.reverse
  refine ⟨n, ?_⟩
  have hback := congrArg List.reverse hn
  rwa [List.reverse_reverse, List.reverse_append, List.reverse_replicate] at hback

theorem length_dropEndSpaces_le (text : List Char) : (dropEndSpaces text).length ≤ text.length := by
  have hle := length_dropSpaces_le text.reverse
  rw [List.length_reverse] at hle
  rwa [dropEndSpaces, List.length_reverse]

@[simp] theorem dropSpaces_space (text : List Char) :
    dropSpaces (' ' :: text) = dropSpaces text := by
  simp [dropSpaces]

theorem dropSpaces_of_startsWithWord {text : List Char} (h : StartsWithWord text) :
    dropSpaces text = text := by
  obtain ⟨c, more, rfl, hc⟩ := h
  simp [dropSpaces, hc]

theorem startsWithWord_dropSpaces {text : List Char} (h : dropSpaces text ≠ []) :
    StartsWithWord (dropSpaces text) := by
  obtain ⟨c, more, hmore⟩ := List.exists_cons_of_ne_nil h
  refine ⟨c, more, hmore, ?_⟩
  have hhead := List.head?_dropWhile_not (· == ' ') text
  unfold dropSpaces at hmore
  rw [hmore] at hhead
  simpa using hhead

/-- A text without spaces belongs to the first word of what starts with it. -/
theorem length_le_firstWord {text : List Char} (h : ' ' ∉ text) (more : List Char) :
    text.length ≤ (firstWord (dropSpaces (text ++ more))).length := by
  cases text with
  | nil => exact Nat.zero_le _
  | cons c text =>
    have hstarts : StartsWithWord (c :: text ++ more) :=
      ⟨c, text ++ more, rfl, fun hc => h (hc ▸ List.mem_cons_self)⟩
    have hall : ∀ d ∈ c :: text, decide (d ≠ ' ') = true := by
      intro d hd
      exact decide_eq_true fun hspace => h (hspace ▸ hd)
    rw [dropSpaces_of_startsWithWord hstarts, firstWord, List.takeWhile_append_of_pos hall,
      List.length_append]
    exact Nat.le_add_right _ _

/-! ## Where a line is broken -/

theorem lastSpace?_eq_none_iff {text : List Char} : lastSpace? text = none ↔ ' ' ∉ text := by
  induction text with
  | nil => simp [lastSpace?]
  | cons c text ih =>
    unfold lastSpace?
    cases hlast : lastSpace? text with
    | some i =>
      have hmem : ' ' ∈ text := by
        by_contra hno
        rw [ih.2 hno] at hlast
        cases hlast
      simp [hmem]
    | none =>
      have hno := ih.1 hlast
      by_cases hc : c = ' '
      · simp [hc]
      · simp [hc, hno, Ne.symm hc]

theorem exists_of_lastSpace? {text : List Char} {i : Nat} (h : lastSpace? text = some i) :
    ∃ before after, text = before ++ ' ' :: after ∧ before.length = i ∧ ' ' ∉ after := by
  induction text generalizing i with
  | nil => cases h
  | cons c text ih =>
    unfold lastSpace? at h
    cases hlast : lastSpace? text with
    | some j =>
      rw [hlast] at h
      obtain ⟨before, after, rfl, hlen, hfree⟩ := ih hlast
      have hi : j + 1 = i := Option.some.inj h
      refine ⟨c :: before, after, rfl, ?_, hfree⟩
      rw [List.length_cons, hlen, hi]
    | none =>
      rw [hlast] at h
      by_cases hc : c = ' '
      · have hi : 0 = i := by simpa [hc] using h
        exact ⟨[], text, by rw [hc, List.nil_append], hi, lastSpace?_eq_none_iff.1 hlast⟩
      · simp [hc] at h

/-- How a break parts a line: into what stands `before` the break, what stands `after` it in the
window it was searched in, and what is `beyond` that window. The break is the last space of the
window. -/
structure Parts (limit : Nat) (line before after beyond : List Char) : Prop where
  line_eq : line = before ++ ' ' :: (after ++ beyond)
  before_ne_nil : before ≠ []
  space_notMem : ' ' ∉ after
  length_eq : before.length + after.length = limit

/-- A line that is too long is parted where it is broken. The first piece comes from what stands
before the break, and the wrapping goes on with the rest. -/
theorem exists_parts {limit i : Nat} {line : List Char} (hlong : limit < line.length)
    (h : breakAt? limit line = some i) :
    ∃ before after beyond, Parts limit line before after beyond ∧ line.take i = before ∧
      dropSpaces (line.drop i) = dropSpaces (after ++ beyond) := by
  have hpos := breakAt?_pos h
  unfold breakAt? at h
  rw [Option.filter_eq_some_iff] at h
  obtain ⟨before, after, hwindow, rfl, hfree⟩ := exists_of_lastSpace? h.1
  have hline : line = before ++ ' ' :: (after ++ line.drop (limit + 1)) := by
    calc line = line.take (limit + 1) ++ line.drop (limit + 1) :=
          (List.take_append_drop _ _).symm
      _ = before ++ ' ' :: (after ++ line.drop (limit + 1)) := by
          rw [hwindow, List.append_assoc, List.cons_append]
  have hsize := congrArg List.length hwindow
  rw [List.length_take, List.length_append, List.length_cons] at hsize
  refine ⟨before, after, line.drop (limit + 1),
    ⟨hline, List.ne_nil_of_length_pos hpos, hfree, by omega⟩, ?_, ?_⟩
  · conv_lhs => rw [hline, List.take_left]
  · conv_lhs => rw [hline, List.drop_left, dropSpaces_space]

theorem Parts.length_le {limit : Nat} {line before after beyond : List Char}
    (h : Parts limit line before after beyond) : (dropEndSpaces before).length ≤ limit := by
  have hle := length_dropEndSpaces_le before
  have hlimit := h.length_eq
  omega

/-- All spaces around a break go, and the word behind them would have been too much for the piece
before them. -/
theorem Parts.exists_gap {limit : Nat} {line before after beyond : List Char}
    (h : Parts limit line before after beyond) :
    ∃ gap, 0 < gap ∧
      line = dropEndSpaces before ++ List.replicate gap ' ' ++ dropSpaces (after ++ beyond) ∧
      limit < (dropEndSpaces before).length + gap +
        (firstWord (dropSpaces (after ++ beyond))).length := by
  obtain ⟨m, hm⟩ := exists_dropEndSpaces_spaces before
  obtain ⟨n, hn⟩ := exists_spaces_dropSpaces (after ++ beyond)
  refine ⟨m + 1 + n, by omega, ?_, ?_⟩
  · calc line = (dropEndSpaces before ++ List.replicate m ' ') ++
          ' ' :: (List.replicate n ' ' ++ dropSpaces (after ++ beyond)) := by
          rw [← hm, ← hn, h.line_eq]
      _ = dropEndSpaces before ++ List.replicate (m + 1 + n) ' ' ++
          dropSpaces (after ++ beyond) := by
          simp [List.replicate_add, List.append_assoc]
  -- what stands between the break and the end of the window belongs to the next word
  · have hword := length_le_firstWord h.space_notMem beyond
    have hlimit := h.length_eq
    have hsize := congrArg List.length hm
    rw [List.length_append, List.length_replicate] at hsize
    omega

/-- Where a line is not broken, its window has no space but at the front of the line. -/
theorem space_notMem_of_breakAt? {limit : Nat} {line : List Char}
    (h : breakAt? limit line = none) : ' ' ∉ (line.take (limit + 1)).tail := by
  unfold breakAt? at h
  cases hlast : lastSpace? (line.take (limit + 1)) with
  | none => exact fun hmem => lastSpace?_eq_none_iff.1 hlast (List.mem_of_mem_tail hmem)
  | some i =>
    obtain ⟨before, after, hwindow, hlen, hfree⟩ := exists_of_lastSpace? hlast
    have hi : i = 0 := by simpa [hlast, Option.filter_eq_none_iff] using h
    have hnil : before = [] := List.length_eq_zero_iff.1 (hlen.trans hi)
    rw [hwindow, hnil]
    exact hfree

/-! ## Breakings -/

/-- A piece behind a break, and the number of spaces that were taken out there. -/
structure Broken where
  gap : Nat
  piece : List Char

/-- A line taken apart: its first piece, the pieces behind the breaks, and the number of spaces
left out at its end. -/
structure Breaking where
  first : List Char
  behind : List Broken
  atEnd : Nat

/-- Each piece ends too late for the first word of the next one: with the spaces between them and
that word it would have more than `limit` characters. -/
def BrokenLate (limit : Nat) (piece : List Char) : List Broken → Prop
  | [] => True
  | next :: more =>
    limit < piece.length + next.gap + (firstWord next.piece).length ∧
      BrokenLate limit next.piece more

namespace Breaking

/-- The pieces, in order. -/
def pieces (b : Breaking) : List (List Char) := b.first :: b.behind.map (·.piece)

/-- The line, with all spaces put back. -/
def line (b : Breaking) : List Char :=
  b.first ++ b.behind.flatMap (fun p => List.replicate p.gap ' ' ++ p.piece) ++
    List.replicate b.atEnd ' '

/-- The breaks fall on spaces, each as late as `limit` allows. The last piece may be too long, if
no break is possible in it. -/
structure Greedy (limit : Nat) (b : Breaking) : Prop where
  gap_pos : ∀ p ∈ b.behind, 0 < p.gap
  starts : ∀ p ∈ b.behind, StartsWithWord p.piece
  fits : ∀ p ∈ b.pieces.dropLast, p.length ≤ limit
  late : BrokenLate limit b.first b.behind
  ended : ∀ p ∈ b.pieces.getLast?, p.length ≤ limit ∨ ' ' ∉ (p.take (limit + 1)).tail

variable {b : Breaking}

/-- Behind the first piece there is a space, or nothing. -/
theorem line_eq_first_or (hgap : ∀ p ∈ b.behind, 0 < p.gap) :
    b.line = b.first ∨ ∃ more, b.line = b.first ++ ' ' :: more := by
  obtain ⟨first, behind, atEnd⟩ := b
  cases behind with
  | nil =>
    cases atEnd with
    | zero => exact .inl (by simp [line])
    | succ n => exact .inr ⟨List.replicate n ' ', by simp [line, List.replicate_succ]⟩
  | cons p behind =>
    have hpos : 0 < p.gap := hgap p List.mem_cons_self
    obtain ⟨n, hn⟩ := Nat.exists_eq_add_one.2 hpos
    refine .inr ⟨List.replicate n ' ' ++ p.piece ++
      behind.flatMap (fun p => List.replicate p.gap ' ' ++ p.piece) ++
        List.replicate atEnd ' ', ?_⟩
    simp [line, hn, List.replicate_succ]

theorem firstWord_line (hgap : ∀ p ∈ b.behind, 0 < p.gap) :
    firstWord b.line = firstWord b.first := by
  rcases line_eq_first_or hgap with hline | ⟨more, hline⟩
  · rw [hline]
  · rw [hline, firstWord_append_space]

theorem startsWithWord_first (hgap : ∀ p ∈ b.behind, 0 < p.gap) (h : StartsWithWord b.line) :
    StartsWithWord b.first := by
  obtain ⟨c, more, hline, hc⟩ := h
  cases hfirst : b.first with
  | cons d first =>
    rcases line_eq_first_or hgap with heq | ⟨_, heq⟩
    all_goals
      rw [hline, hfirst] at heq
      exact ⟨d, first, rfl, (List.cons.inj heq).1 ▸ hc⟩
  -- an empty first piece would leave a space, or nothing, at the front of the line
  | nil =>
    rcases line_eq_first_or hgap with heq | ⟨_, heq⟩
    · rw [hline, hfirst] at heq
      cases heq
    · rw [hline, hfirst] at heq
      exact absurd (List.cons.inj heq).1 hc

/-- A breaking with one more piece in front of it. -/
def behindPiece (piece : List Char) (gap : Nat) (b : Breaking) : Breaking :=
  ⟨piece, ⟨gap, b.first⟩ :: b.behind, b.atEnd⟩

theorem line_behindPiece (piece : List Char) (gap : Nat) (b : Breaking) :
    (b.behindPiece piece gap).line = piece ++ List.replicate gap ' ' ++ b.line := by
  simp [line, behindPiece]

/-- The words of the pieces are those of the line, in the same order. -/
theorem words_line (hgap : ∀ p ∈ b.behind, 0 < p.gap) : words b.line = b.pieces.flatMap words := by
  obtain ⟨first, behind, atEnd⟩ := b
  induction behind generalizing first with
  | nil => simp [line, pieces, words_append_spaces]
  | cons p behind ih =>
    have hpos : 0 < p.gap := hgap p List.mem_cons_self
    have hrest := ih p.piece fun q hq => hgap q (List.mem_cons_of_mem p hq)
    calc words (Breaking.mk first (p :: behind) atEnd).line
        = words (first ++ List.replicate p.gap ' ' ++ (Breaking.mk p.piece behind atEnd).line) :=
          congrArg words (line_behindPiece first p.gap ⟨p.piece, behind, atEnd⟩)
      _ = words first ++ (Breaking.mk p.piece behind atEnd).pieces.flatMap words := by
          rw [words_spaced _ _ hpos, hrest]

theorem Greedy.behindPiece {limit gap : Nat} {piece : List Char} (h : b.Greedy limit)
    (hstarts : StartsWithWord b.line) (hgap : 0 < gap) (hfits : piece.length ≤ limit)
    (hlate : limit < piece.length + gap + (firstWord b.line).length) :
    (b.behindPiece piece gap).Greedy limit where
  gap_pos := by
    intro p hp
    rcases List.mem_cons.1 hp with rfl | hp
    · exact hgap
    · exact h.gap_pos p hp
  starts := by
    intro p hp
    rcases List.mem_cons.1 hp with rfl | hp
    · exact startsWithWord_first h.gap_pos hstarts
    · exact h.starts p hp
  fits := by
    intro p hp
    rcases List.mem_cons.1 (show p ∈ piece :: b.pieces.dropLast from hp) with rfl | hp
    · exact hfits
    · exact h.fits p hp
  late := ⟨by rwa [firstWord_line h.gap_pos] at hlate, h.late⟩
  ended := by
    have hlast : (b.behindPiece piece gap).pieces.getLast? = b.pieces.getLast? :=
      List.getLast?_cons_cons
    rw [hlast]
    exact h.ended

/-- A single piece has no breaks. -/
theorem greedy_single {limit : Nat} {piece : List Char}
    (h : piece.length ≤ limit ∨ ' ' ∉ (piece.take (limit + 1)).tail) (n : Nat) :
    (Breaking.mk piece [] n).Greedy limit where
  gap_pos := by simp
  starts := by simp
  fits := by simp [pieces]
  late := trivial
  ended := by simpa [pieces] using h

end Breaking

/-- The pieces of a line come from a greedy breaking of it. -/
theorem exists_greedy (limit : Nat) (line : List Char) :
    ∃ b : Breaking, b.line = line ∧ b.pieces = wrap limit line ∧ b.Greedy limit := by
  fun_induction wrap limit line with
  | case1 line hshort =>
    exact ⟨⟨line, [], 0⟩, by simp [Breaking.line], rfl, Breaking.greedy_single (.inl hshort) 0⟩
  | case2 line hlong hnone =>
    have hended := space_notMem_of_breakAt? hnone
    exact ⟨⟨line, [], 0⟩, by simp [Breaking.line], rfl, Breaking.greedy_single (.inr hended) 0⟩
  | case3 line hlong i hbreak rest ih =>
    obtain ⟨before, after, beyond, hparts, hfront, hrest⟩ :=
      exists_parts (Nat.lt_of_not_le hlong) hbreak
    have hrest : rest = dropSpaces (after ++ beyond) := hrest
    obtain ⟨gap, hgap, hwhole, hlate⟩ := hparts.exists_gap
    rw [← hrest] at hwhole hlate
    rw [hfront]
    by_cases hempty : rest = []
    · rw [if_pos (by simp [hempty])]
      refine ⟨⟨dropEndSpaces before, [], gap⟩, ?_, rfl,
        Breaking.greedy_single (.inl hparts.length_le) gap⟩
      rw [hwhole, hempty]
      simp [Breaking.line]
    · rw [if_neg (by simpa using hempty)]
      obtain ⟨b, hbline, hbpieces, hgreedy⟩ := ih
      have hstarts : StartsWithWord b.line := by
        rw [hbline, hrest]
        exact startsWithWord_dropSpaces (hrest ▸ hempty)
      refine ⟨b.behindPiece (dropEndSpaces before) gap, ?_, ?_,
        hgreedy.behindPiece hstarts hgap hparts.length_le (by rwa [hbline])⟩
      · rw [Breaking.line_behindPiece, hbline, ← hwhole]
      · rw [← hbpieces]
        rfl

/-- No character of a piece is new. -/
theorem subset_of_mem_wrap {limit : Nat} {line piece : List Char} (h : piece ∈ wrap limit line) :
    piece ⊆ line := by
  obtain ⟨b, rfl, hpieces, -⟩ := exists_greedy limit line
  rw [← hpieces] at h
  intro c hc
  unfold Breaking.line
  rcases List.mem_cons.1 h with rfl | h
  · exact List.mem_append_left _ (List.mem_append_left _ hc)
  · obtain ⟨p, hp, rfl⟩ := List.mem_map.1 h
    exact List.mem_append_left _ (List.mem_append_right _
      (List.mem_flatMap.2 ⟨p, hp, List.mem_append_right _ hc⟩))

/-- Wrapping a line only takes spaces out of it, and at least one at each break. Every piece but
the first starts with a word, every piece but the last fits, and no break could have come later.
The words are left as they are, and none is split. -/
theorem exists_greedy_breaking (limit : Nat) (line : List Char) :
    ∃ b : Breaking, b.line = line ∧ b.pieces = wrap limit line ∧ b.Greedy limit ∧
      words line = (wrap limit line).flatMap words := by
  obtain ⟨b, hline, hpieces, hgreedy⟩ := exists_greedy limit line
  refine ⟨b, hline, hpieces, hgreedy, ?_⟩
  rw [← hpieces, ← hline]
  exact Breaking.words_line hgreedy.gap_pos

end CommandLine.Text
