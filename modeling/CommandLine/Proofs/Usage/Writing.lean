import CommandLine.Parser

/-!
# Writing in pieces is writing the whole

A usage text is written piece by piece, and each piece may be one too many for its writer. Where
the pieces end makes no difference: the writer keeps the same bytes, and there is a failure
exactly if the whole does not fit (`Parser.writeUsage_eq`).

## Strategy

`Writing.Writes w text` says that `w` followed by any one text is that text behind `text`, written
at once. Two texts in a row are such (`Writing.put_put`), and the relation is closed under
sequence and lists.
-/

namespace CommandLine

theorem utf8Bytes_append (a b : String) : utf8Bytes (a ++ b) = utf8Bytes a ++ utf8Bytes b := by
  simp [utf8Bytes]

namespace Sink

/-- There is room for two texts if there is room for the first, and then for the second. -/
theorem fits_append (s : Sink) (a b : String) :
    s.fits (a ++ b) = (s.fits a && (s.write a).fits b) := by
  cases hlimit : s.limit with
  | none => simp [hlimit]
  | some n =>
    have hboth : s.fits (a ++ b) =
        decide (s.kept.length + (utf8Bytes a).length + (utf8Bytes b).length ≤ n) := by
      simp only [fits, hlimit, utf8Bytes_append, List.length_append, Nat.add_assoc]
    by_cases hfirst : s.fits a = true
    · have hkept := kept_write_of_fits hfirst
      rw [hboth, hfirst, Bool.true_and]
      simp only [fits, limit_write, hlimit, hkept, List.length_append]
    -- a first text that does not fit leaves no room for both
    · have hover : n < s.kept.length + (utf8Bytes a).length := by
        simpa [fits, hlimit] using hfirst
      have hno : ¬ s.kept.length + (utf8Bytes a).length + (utf8Bytes b).length ≤ n := by
        omega
      rw [hboth, decide_eq_false hno]
      simp [hfirst]

/-- Two texts that are both written are kept as one. -/
theorem write_append {s : Sink} {a : String} (h : s.fits a = true) (b : String) :
    s.write (a ++ b) = (s.write a).write b := by
  have hkept := kept_write_of_fits h
  have hlimit := limit_write s a
  simp only [write, utf8Bytes_append] at hkept hlimit ⊢
  rw [hkept, List.append_assoc]

/-- Behind a text that does not fit nothing is kept. -/
theorem write_append_of_not_fits {s : Sink} {a : String} (h : s.fits a = false) (b : String) :
    s.write (a ++ b) = s.write a := by
  cases hlimit : s.limit with
  | none => simp [hlimit] at h
  | some n =>
    have hover : n ≤ (s.kept ++ utf8Bytes a).length := by
      have hlt : n < s.kept.length + (utf8Bytes a).length := by
        simpa [fits, hlimit] using h
      rw [List.length_append]
      omega
    simp only [write, hlimit, utf8Bytes_append]
    rw [← List.append_assoc, List.take_append_of_le_length hover]

/-- The outcome when `text` is written on the way to it. -/
def settle (s : Sink) (text : String) (outcome : Outcome) : Outcome :=
  if s.fits text then outcome else .fatal (.io overflowMessage)

end Sink

namespace Writing

/-- Two texts in a row are one. -/
theorem put_put (a b : String) : (do put a; put b) = put (a ++ b) := by
  funext s
  show (put a >>= fun _ => put b) s = put (a ++ b) s
  cases hfirst : s.fits a with
  | true =>
    simp only [bind, EStateM.bind, put, hfirst, if_true]
    rw [Sink.fits_append, hfirst, Bool.true_and, Sink.write_append hfirst]
  | false =>
    simp only [bind, EStateM.bind, put, hfirst, Bool.false_eq_true, if_false]
    rw [Sink.fits_append, hfirst, Bool.false_and, Sink.write_append_of_not_fits hfirst]
    rfl

/-- What is written is `text`: with any text after it, it is as if both were written at once. -/
def Writes (w : Writing) (text : String) : Prop := ∀ more, (do w; put more) = put (text ++ more)

theorem writes_put (text : String) : Writes (put text) text := put_put text

theorem writes_pure : Writes (pure ()) "" := by
  intro more
  rw [String.empty_append]
  rfl

theorem Writes.bind {w w' : Writing} {a b : String} (h : Writes w a) (h' : Writes w' b) :
    Writes (do w; w') (a ++ b) := by
  intro more
  calc (do (do w; w'); put more)
      = (do w; (do w'; put more)) := bind_assoc _ _ _
    _ = (do w; put (b ++ more)) := by rw [h' more]
    _ = put (a ++ b ++ more) := by rw [h, String.append_assoc]

theorem writes_forM {α : Type} {f : α → Writing} {g : α → String} (as : List α)
    (h : ∀ a ∈ as, Writes (f a) (g a)) : Writes (as.forM f) (String.join (as.map g)) := by
  induction as with
  | nil => exact writes_pure
  | cons a as ih =>
    have hrest := ih fun a' ha => h a' (List.mem_cons_of_mem a ha)
    rw [List.map_cons, String.join_cons]
    exact (h a List.mem_cons_self).bind hrest

/-- One text is written and the outcome settled at once. -/
theorem settle_put (text : String) (s : Sink) (outcome : Outcome) :
    (put text).settle s outcome = (s.settle text outcome, s.write text) := by
  unfold settle put Sink.settle
  cases s.fits text <;> rfl

end Writing

open Writing

/-! ## The usage text -/

theorem writes_writeCall (lead call : String) :
    Writes (writeCall lead call) (callText lead call) := by
  unfold writeCall callText
  cases Text.lines call.toList with
  | nil => exact (writes_put lead).bind (writes_put "\n")
  | cons first rest =>
    have hline : ∀ line ∈ rest, Writes
        (do put "       "; put (String.ofList line); put "\n")
        ("       " ++ String.ofList line ++ "\n") := by
      intro line _
      rw [String.append_assoc]
      exact (writes_put _).bind ((writes_put _).bind (writes_put _))
    dsimp only
    rw [String.append_assoc, String.append_assoc]
    exact (writes_put lead).bind ((writes_put _).bind ((writes_put "\n").bind
      (writes_forM rest hline)))

theorem writes_writeCalls (calls : List String) : Writes (writeCalls calls) (callTexts calls) := by
  cases calls with
  | nil => exact writes_pure
  | cons first rest =>
    exact (writes_writeCall _ first).bind (writes_forM rest fun call _ => writes_writeCall _ call)

theorem ofList_flatMap {α : Type} (f : α → List Char) (as : List α) :
    String.ofList (as.flatMap f) = String.join (as.map fun a => String.ofList (f a)) := by
  induction as with
  | nil => rfl
  | cons a as ih =>
    rw [List.flatMap_cons, String.ofList_append, ih, List.map_cons, String.join_cons]

theorem writes_writePieces (l : Layout) (pos : Nat) (pieces : List (List Char)) :
    Writes (writePieces l pos pieces) (String.ofList (setPieces l pos pieces)) := by
  cases pieces with
  | nil => exact writes_pure
  | cons first rest =>
    have hpiece : ∀ piece ∈ rest, Writes
        (do put "\n"; put (String.ofList (l.padding 0)); put (String.ofList piece))
        (String.ofList ('\n' :: l.padding 0 ++ piece)) := by
      intro piece _
      have htext : String.ofList ('\n' :: l.padding 0 ++ piece) =
          "\n" ++ (String.ofList (l.padding 0) ++ String.ofList piece) := by
        rw [List.cons_append, ← List.singleton_append, String.ofList_append, String.ofList_append]
      rw [htext]
      exact (writes_put _).bind ((writes_put _).bind (writes_put _))
    rw [setPieces, List.append_assoc, String.ofList_append, String.ofList_append, ofList_flatMap]
    exact (writes_put _).bind ((writes_put _).bind (writes_forM rest hpiece))

theorem writes_row (l : Layout) (r : Row) : Writes (r.write l) (r.render l) := by
  unfold Row.write Row.render helpColumn
  rw [String.append_assoc]
  exact (writes_put _).bind ((writes_writePieces _ _ _).bind (writes_put "\n"))

theorem writes_write (t : Table) (l : Layout) (e : Entry) :
    Writes (e.write l t.hasLong) (t.entryText l e) := by
  unfold Entry.write Table.entryText
  by_cases hheading : e.isHeading = true
  · rw [if_pos hheading, if_pos hheading]
    by_cases hhelp : (e.help == "") = true
    · have hblank := (writes_put "\n").bind writes_pure
      rw [String.append_empty] at hblank
      rw [if_pos hhelp, if_pos hhelp]
      exact hblank
    · rw [if_neg hhelp, if_neg hhelp, String.append_assoc]
      exact (writes_put "\n").bind ((writes_put e.help).bind (writes_put "\n"))
  · rw [if_neg hheading, if_neg hheading]
    exact writes_forM _ fun r _ => writes_row l r

theorem writes_writeLead (t : Table) :
    Writes t.writeLead (match t with
      | [] => ""
      | e :: _ => if e.isHeading then "" else "\n") := by
  cases t with
  | nil => exact writes_pure
  | cons e more =>
    unfold Table.writeLead
    dsimp only
    split
    · exact writes_pure
    · exact writes_put "\n"

/-- The usage text is written as if it were one text. -/
theorem Parser.writeUsage_eq (p : Parser) : p.writeUsage = put p.usage := by
  have hentries : Writes (p.table.forM (Entry.write p.layout p.table.hasLong))
      (String.join (p.table.map (p.table.entryText p.layout))) :=
    writes_forM _ fun e _ => writes_write _ _ e
  unfold writeUsage Table.writeUsage usage Table.usage
  rw [hentries "\n", writes_writeLead, writes_writeCalls]
  exact congrArg put (String.append_assoc.symm.trans String.append_assoc.symm)

/-- A diagnostic line is written as if it were one text. -/
theorem Fault.write_eq (f : Fault) : f.write = put f.report := by
  unfold Fault.write Fault.report
  rw [put_put, put_put, String.append_assoc]

end CommandLine
