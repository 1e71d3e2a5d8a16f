import CommandLine.Proofs.Text.Overlong
import CommandLine.Proofs.Usage.Writing

/-!
# The help column as a reader finds it

The lines of a help column are read back by splitting what was written at the line feeds, and by
leaving out the padding (`Layout.runs`). Two things can go wrong with them. The wrapping ends with
a word that is too long, and leaves what follows it on the same line (`runs_fit_iff`). And in a
column that starts at the left margin every piece but the first has a blank line before it
(`isAligned_iff`).

## Strategy

What is written is the sequence of its lines (`setPieces_eq_intercalate`), so that splitting it at
the line feeds gives these lines back. Both results are read off them.
-/

namespace CommandLine

open Text

namespace Layout

/-- The runs of text on the lines of the help column, read back from what was written behind `pos`
characters. The padding before each is left out, and so is the end of a line that was filled up to
the column or beyond. -/
def runs (l : Layout) (pos : Nat) (written : List Char) : List (List Char) :=
  match written.splitOn '\n' with
  | [] => []
  | first :: rest =>
    if pos < l.column then first.drop (l.column - pos) :: rest.map (·.drop l.column)
    else rest.map (·.drop l.column)

/-- Pieces one below the other, with nothing but the padding before them. A line that is filled up
to the column or beyond is ended first. -/
def aligned (l : Layout) (pos : Nat) : List (List Char) → List Char
  | [] => []
  | first :: rest =>
    (if l.column ≤ pos then ['\n'] else []) ++
      ['\n'].intercalate
        ((List.replicate (if pos < l.column then l.column - pos else l.column) ' ' ++ first) ::
          rest.map (List.replicate l.column ' ' ++ ·))

/-- The lines that the padding and a piece take on a line that is filled up to `pos`. -/
def linesOf (l : Layout) (pos : Nat) (piece : List Char) : List (List Char) :=
  if pos < l.column then [List.replicate (l.column - pos) ' ' ++ piece]
  else [[], List.replicate l.column ' ' ++ piece]

end Layout

variable {l : Layout} {pos : Nat} {help : String}

/-! ## The lines that are written -/

theorem intercalate_cons {α : Type} (sep first : List α) (rest : List (List α)) :
    sep.intercalate (first :: rest) = first ++ rest.flatMap (sep ++ ·) := by
  induction rest generalizing first with
  | nil => simp
  | cons second rest ih =>
    rw [List.intercalate_cons_cons, ih, List.flatMap_cons, List.append_assoc, List.append_assoc]

theorem intercalate_linesOf (piece : List Char) (more : List (List Char)) :
    ['\n'].intercalate (l.linesOf pos piece ++ more) =
      l.padding pos ++ piece ++ more.flatMap (['\n'] ++ ·) := by
  unfold Layout.linesOf Layout.padding
  by_cases h : pos < l.column
  · rw [if_pos h, if_pos h, List.singleton_append, intercalate_cons]
  · rw [if_neg h, if_neg h, List.cons_append, intercalate_cons]
    rfl

/-- What is written is one line after the other. -/
theorem setPieces_eq_intercalate (first : List Char) (rest : List (List Char)) :
    setPieces l pos (first :: rest) =
      ['\n'].intercalate (l.linesOf pos first ++ rest.flatMap (l.linesOf 0)) := by
  have hpiece (piece : List Char) :
      (l.linesOf 0 piece).flatMap (['\n'] ++ ·) = '\n' :: l.padding 0 ++ piece := by
    unfold Layout.linesOf Layout.padding
    split <;> simp
  rw [intercalate_linesOf, List.flatMap_assoc, setPieces]
  simp only [hpiece]

/-- No piece of a help text holds a line feed. -/
theorem newline_notMem_of_mem_helpPieces {piece : List Char} (h : piece ∈ helpPieces l help) :
    '\n' ∉ piece := by
  obtain ⟨line, hline, hpiece⟩ := List.mem_flatMap.1 h
  exact fun hmem => newline_notMem_of_mem_lines hline (subset_of_mem_wrap hpiece hmem)

theorem newline_notMem_of_mem_linesOf {piece line : List Char} (hpiece : '\n' ∉ piece)
    (h : line ∈ l.linesOf pos piece) : '\n' ∉ line := by
  unfold Layout.linesOf at h
  split at h
  · rw [List.mem_singleton.1 h]
    simpa using hpiece
  · rcases List.mem_cons.1 h with rfl | h
    · exact List.not_mem_nil
    · rw [List.mem_singleton.1 h]
      simpa using hpiece

/-- The runs of the help column are the pieces, and the blank lines before them at the left
margin. -/
theorem runs_setPieces {first : List Char} {rest : List (List Char)}
    (hfirst : '\n' ∉ first) (hrest : ∀ piece ∈ rest, '\n' ∉ piece) :
    l.runs pos (setPieces l pos (first :: rest)) =
      first :: rest.flatMap fun piece => if l.column = 0 then [[], piece] else [piece] := by
  have hlines : (setPieces l pos (first :: rest)).splitOn '\n' =
      l.linesOf pos first ++ rest.flatMap (l.linesOf 0) := by
    rw [setPieces_eq_intercalate]
    refine List.splitOn_intercalate '\n' ?_ ?_
    · intro line hline
      rcases List.mem_append.1 hline with hline | hline
      · exact newline_notMem_of_mem_linesOf hfirst hline
      · obtain ⟨piece, hpiece, hline⟩ := List.mem_flatMap.1 hline
        exact newline_notMem_of_mem_linesOf (hrest piece hpiece) hline
    · unfold Layout.linesOf
      split <;> simp
  have hbehind : (rest.flatMap (l.linesOf 0)).map (·.drop l.column) =
      rest.flatMap fun piece => if l.column = 0 then [[], piece] else [piece] := by
    rw [List.map_flatMap]
    congr
    funext piece
    unfold Layout.linesOf
    by_cases hzero : l.column = 0
    · simp [hzero]
    · simp [hzero, Nat.pos_of_ne_zero hzero]
  unfold Layout.runs
  rw [hlines]
  by_cases h : pos < l.column
  · simp only [Layout.linesOf, if_pos h, List.singleton_append]
    rw [hbehind]
    simp
  · simp only [Layout.linesOf, if_neg h, List.cons_append, List.nil_append, List.map_cons]
    rw [hbehind]
    simp

/-! ## Where the column is as it should be -/

/-- The help column as it is meant to be: every piece on a line of its own behind the padding, and
nothing else. -/
structure IsAligned (l : Layout) (pos : Nat) (help : String) : Prop where
  text : helpColumn l help pos = String.ofList (l.aligned pos (helpPieces l help))
  runs : helpPieces l help ≠ [] → l.runs pos (helpColumn l help pos).toList = helpPieces l help

theorem runs_helpColumn (pos : Nat) {first : List Char} {rest : List (List Char)}
    (h : helpPieces l help = first :: rest) :
    l.runs pos (helpColumn l help pos).toList =
      first :: rest.flatMap fun piece => if l.column = 0 then [[], piece] else [piece] := by
  have hfree : ∀ piece ∈ first :: rest, '\n' ∉ piece := fun piece hmem =>
    newline_notMem_of_mem_helpPieces (h ▸ hmem)
  unfold helpColumn
  rw [h, String.toList_ofList]
  exact runs_setPieces (hfree first List.mem_cons_self) fun piece hmem =>
    hfree piece (List.mem_cons_of_mem _ hmem)

theorem setPieces_eq_aligned {first : List Char} {rest : List (List Char)}
    (h : 0 < l.column ∨ rest = []) :
    setPieces l pos (first :: rest) = l.aligned pos (first :: rest) := by
  have hrest : rest.flatMap (l.linesOf 0) = rest.map (List.replicate l.column ' ' ++ ·) := by
    rcases h with h | rfl
    · unfold Layout.linesOf
      simp only [if_pos h, Nat.sub_zero]
      exact List.map_eq_flatMap.symm
    · rfl
  rw [setPieces_eq_intercalate, hrest]
  unfold Layout.linesOf Layout.aligned
  by_cases hpos : pos < l.column
  · rw [if_pos hpos, if_pos hpos, if_neg (Nat.not_le_of_lt hpos)]
    rfl
  · rw [if_neg hpos, if_neg hpos, if_pos (Nat.le_of_not_lt hpos), List.cons_append,
      List.singleton_append, List.intercalate_cons_cons]
    rfl

/-- A help text is written as one text, and its lines stand in the column as they should unless
the column starts at the left margin and there is more than one of them. -/
theorem isAligned_iff (l : Layout) (pos : Nat) (help : String) :
    Writing.Writes (writePieces l pos (helpPieces l help)) (helpColumn l help pos) ∧
      (IsAligned l pos help ↔ 0 < l.column ∨ (helpPieces l help).length ≤ 1) := by
  refine ⟨writes_writePieces l pos (helpPieces l help), ?_⟩
  cases hpieces : helpPieces l help with
  | nil =>
    have haligned : IsAligned l pos help :=
      ⟨by rw [helpColumn, hpieces]; rfl, fun hne => absurd hpieces hne⟩
    simp [haligned]
  | cons first rest =>
    have hruns := runs_helpColumn pos hpieces
    have hone : (first :: rest).length ≤ 1 ↔ rest = [] := by simp
    rw [hone]
    constructor
    -- at the left margin a blank line is read back with every piece but the first
    · intro h
      have hread := h.runs (by simp [hpieces])
      rw [hruns, hpieces] at hread
      rcases Nat.eq_zero_or_pos l.column with hzero | hpos
      · have hsize := congrArg List.length (List.cons.inj hread).2
        simp only [hzero, if_true, List.length_flatMap, List.length_cons, List.length_nil,
          List.map_const', List.sum_replicate_nat] at hsize
        exact .inr (List.length_eq_zero_iff.1 (by omega))
      · exact .inl hpos
    · intro h
      refine ⟨?_, fun _ => ?_⟩
      · rw [helpColumn, hpieces, setPieces_eq_aligned h]
      · rw [hruns, hpieces]
        rcases h with hpos | rfl
        · simp [Nat.ne_of_gt hpos]
        · rfl

/-- A column at the left margin. -/
def Layout.atMargin : Layout := { column := 0 }

/-- A blank line stands between the two lines. -/
theorem not_isAligned_at_margin :
    helpColumn Layout.atMargin "one\ntwo" 0 = "\none\n\ntwo" ∧
      Layout.atMargin.aligned 0 (helpPieces Layout.atMargin "one\ntwo") = "\none\ntwo".toList ∧
        ¬ IsAligned Layout.atMargin 0 "one\ntwo" := by
  have hcolumn : helpColumn Layout.atMargin "one\ntwo" 0 = "\none\n\ntwo" := by decide +kernel
  have haligned : Layout.atMargin.aligned 0 (helpPieces Layout.atMargin "one\ntwo") =
      "\none\ntwo".toList := by decide +kernel
  refine ⟨hcolumn, haligned, fun h => ?_⟩
  have htext := h.text
  rw [hcolumn, haligned] at htext
  exact absurd htext (by decide)

/-! ## Where every run fits -/

/-- Apart from blank lines, the runs are the pieces. -/
theorem eq_nil_or_mem_of_mem_runs {run : List Char}
    (h : run ∈ l.runs pos (helpColumn l help pos).toList) : run = [] ∨ run ∈ helpPieces l help := by
  cases hpieces : helpPieces l help with
  | nil =>
    rw [helpColumn, hpieces, String.toList_ofList] at h
    simp only [setPieces, Layout.runs, List.splitOn_nil] at h
    split at h <;> simp_all
  | cons first rest =>
    rw [runs_helpColumn pos hpieces] at h
    rcases List.mem_cons.1 h with rfl | h
    · exact .inr List.mem_cons_self
    · obtain ⟨piece, hmem, hrun⟩ := List.mem_flatMap.1 h
      have hor : run = [] ∨ run = piece := by
        split at hrun <;> simp_all
      rcases hor with rfl | rfl
      · exact .inl rfl
      · exact .inr (List.mem_cons_of_mem _ hmem)

theorem mem_runs_of_mem_helpPieces {piece : List Char} (h : piece ∈ helpPieces l help) :
    piece ∈ l.runs pos (helpColumn l help pos).toList := by
  cases hpieces : helpPieces l help with
  | nil =>
    rw [hpieces] at h
    cases h
  | cons first rest =>
    rw [runs_helpColumn pos hpieces]
    rw [hpieces] at h
    rcases List.mem_cons.1 h with rfl | h
    · exact List.mem_cons_self
    · refine List.mem_cons_of_mem _ (List.mem_flatMap.2 ⟨piece, h, ?_⟩)
      split <;> simp

/-- Every run of a help text fits into the column or holds no space between two words, exactly if
no line of the help text overruns. -/
theorem runs_fit_iff (l : Layout) (pos : Nat) (help : String) :
    (∀ run ∈ l.runs pos (helpColumn l help pos).toList,
        run.length ≤ max (l.width - l.column) 20 ∨ ¬ HasInnerSpace run) ↔
      ∀ line ∈ lines help.toList, ¬ Overruns (max (l.width - l.column) 20) line := by
  have hroom : 0 < max (l.width - l.column) 20 := by omega
  constructor
  · intro hfit line hline hover
    obtain ⟨piece, hpiece, hlong, hinner⟩ := (exists_overlong_iff hroom line).2 hover
    have hmem : piece ∈ helpPieces l help := List.mem_flatMap.2 ⟨line, hline, hpiece⟩
    rcases hfit piece (mem_runs_of_mem_helpPieces hmem) with hshort | hsingle
    · omega
    · exact hsingle hinner
  · intro hlines run hrun
    rcases eq_nil_or_mem_of_mem_runs hrun with rfl | hmem
    · exact .inl (Nat.zero_le _)
    · obtain ⟨line, hline, hpiece⟩ := List.mem_flatMap.1 hmem
      by_contra hbad
      rw [not_or, Nat.not_le, not_not] at hbad
      exact hlines line hline ((exists_overlong_iff hroom line).1 ⟨run, hpiece, hbad⟩)

/-- A column of twenty characters. -/
def Layout.narrow : Layout := { column := 10, width := 30 }

/-- A word of twenty-five characters, and another one behind it. -/
def overlongHelp : String := "abcdefghijklmnopqrstuvwxy and"

/-- The word behind the one that is too long stays on its line. -/
theorem not_runs_fit_overlongHelp :
    helpColumn Layout.narrow overlongHelp 0 = "          abcdefghijklmnopqrstuvwxy and" ∧
      ¬ ∀ run ∈ Layout.narrow.runs 0 (helpColumn Layout.narrow overlongHelp 0).toList,
        run.length ≤ max (Layout.narrow.width - Layout.narrow.column) 20 ∨
          ¬ HasInnerSpace run := by
  have hcolumn : helpColumn Layout.narrow overlongHelp 0 =
      "          abcdefghijklmnopqrstuvwxy and" := by decide +kernel
  have hmem : overlongHelp.toList ∈
      Layout.narrow.runs 0 (helpColumn Layout.narrow overlongHelp 0).toList := by
    rw [hcolumn]
    decide +kernel
  refine ⟨hcolumn, fun hfit => ?_⟩
  rcases hfit _ hmem with hshort | hsingle
  · exact absurd hshort (by decide)
  · exact hsingle ⟨"abcdefghijklmnopqrstuvwxy".toList, "and".toList, by decide,
      ⟨'a', by decide, by decide⟩, ⟨'a', by decide, by decide⟩⟩

end CommandLine
