import CommandLine.Proofs.Parser.Interruption

/-!
# What a parse writes

The outcome of a parse says which texts are written: the usage text to the output where help was
asked for, a diagnostic line to the error writer where something is wrong. Limited writers keep as
much of the same texts as they have room for, and where that is too little the outcome says so.
Nothing else depends on the writers (`Parser.cutTo_parse`).

## Strategy

A parse with fresh writers comes to an outcome that does not depend on their limits, and then writes
the texts of that outcome (`Parser.exists_told`). How limits change what is told is a matter of the
writers alone (`Run.cutTo_told`).
-/

namespace CommandLine

/-! ## The texts of an outcome -/

namespace Outcome

/-- The text for the output. -/
def output (p : Parser) : Outcome → String
  | help => p.usage
  | _ => ""

/-- The text for the error writer. No usage text follows where there is no sound table for it. -/
def diagnostics (p : Parser) : Outcome → String
  | fatal (.badTable reason) => (Fault.badTable reason).report
  | fatal f => f.report ++ p.usage
  | _ => ""

end Outcome

/-- What a parse has written is what its outcome calls for, and the outcome is none that comes from
writing. It complains about the table exactly if that has a defect. -/
structure Parsed.Tells (r : Parsed) (p : Parser) : Prop where
  out : r.out.kept = utf8Bytes (r.outcome.output p)
  err : r.err.kept = utf8Bytes (r.outcome.diagnostics p)
  notIo : ∀ reason, r.outcome ≠ .fatal (.io reason)
  badTable : (∃ reason, r.outcome = .fatal (.badTable reason)) ↔ p.table.defect? ≠ none

/-! ## Limits -/

/-- The bytes that are kept where there is room for `limit` of them. -/
def keepUpTo (limit : Option Nat) (bytes : List UInt8) : List UInt8 :=
  match limit with
  | none => bytes
  | some n => bytes.take n

/-- There is no room for all of the bytes. -/
def Exceed (bytes : List UInt8) (limit : Option Nat) : Prop :=
  ∃ n, limit = some n ∧ n < bytes.length

/-- The parse `cut` is like `whole` but for writers that have these limits. It has kept the front of
each text, and fails if there is more of one. -/
structure Parsed.CutTo (cut whole : Parsed) (outLimit errLimit : Option Nat) : Prop where
  out : cut.out.kept = keepUpTo outLimit whole.out.kept
  err : cut.err.kept = keepUpTo errLimit whole.err.kept
  io : (∃ reason, cut.outcome = .fatal (.io reason)) ↔
    Exceed whole.out.kept outLimit ∨ Exceed whole.err.kept errLimit
  outcome : ¬ (Exceed whole.out.kept outLimit ∨ Exceed whole.err.kept errLimit) →
    cut.outcome = whole.outcome
  argv : cut.argv = whole.argv
  slots : cut.slots = whole.slots

namespace Sink

/-- A writer that has kept nothing yet. -/
def fresh (limit : Option Nat) : Sink := { limit }

theorem kept_write_fresh (limit : Option Nat) (text : String) :
    ((fresh limit).write text).kept = keepUpTo limit (utf8Bytes text) := by
  cases limit <;> simp [fresh, write, keepUpTo]

theorem fits_fresh_iff (limit : Option Nat) (text : String) :
    (fresh limit).fits text = true ↔ ¬ Exceed (utf8Bytes text) limit := by
  cases limit <;> simp [fresh, fits, Exceed]

/-- Nothing is kept of the empty text. -/
theorem write_fresh_empty (limit : Option Nat) : (fresh limit).write "" = fresh limit := by
  cases limit <;> simp [fresh, write, utf8Bytes]

/-- There is always room for the empty text. -/
theorem settle_fresh_empty (limit : Option Nat) (outcome : Outcome) :
    (fresh limit).settle "" outcome = outcome := by
  have hfits : (fresh limit).fits "" = true := by
    cases limit <;> simp [fresh, fits, utf8Bytes]
  rw [settle, if_pos hfits]

theorem settle_fresh_of_exceed {limit : Option Nat} {text : String}
    (h : Exceed (utf8Bytes text) limit) (outcome : Outcome) :
    (fresh limit).settle text outcome = .fatal (.io overflowMessage) := by
  have hfits : ¬ (fresh limit).fits text = true := by
    rw [fits_fresh_iff]
    exact not_not.2 h
  rw [settle, if_neg hfits]

theorem settle_fresh_of_not_exceed {limit : Option Nat} {text : String}
    (h : ¬ Exceed (utf8Bytes text) limit) (outcome : Outcome) :
    (fresh limit).settle text outcome = outcome := by
  rw [settle, if_pos ((fits_fresh_iff limit text).2 h)]

end Sink

theorem not_exceed_none (bytes : List UInt8) : ¬ Exceed bytes none := by
  simp [Exceed]

namespace Run

/-- What a run comes to, before anything is written. -/
def outcome (r : Run) : Outcome :=
  match r.ending with
  | .complete => .ok r.argv.length
  | .help => .help
  | .fault f => .fatal f

/-- What a parse leaves behind that tells a run to fresh writers. -/
def told (r : Run) (p : Parser) (slots : Slots) (outLimit errLimit : Option Nat) : Parsed :=
  let out := Sink.fresh outLimit
  let err := Sink.fresh errLimit
  { outcome := err.settle (r.outcome.diagnostics p) (out.settle (r.outcome.output p) r.outcome)
    argv := r.argv, slots := slots.after r.events, out := out.write (r.outcome.output p)
    err := err.write (r.outcome.diagnostics p), events := r.events }

variable {r : Run} {p : Parser} {slots : Slots} {outLimit errLimit : Option Nat}

theorem ending_of_outcome {f : Fault} (h : r.outcome = .fatal f) : r.ending = .fault f := by
  unfold outcome at h
  split at h <;> cases h
  assumption

/-- Where there is room for both texts they make no difference to the outcome. -/
theorem outcome_told_of_room (hout : ¬ Exceed (utf8Bytes (r.outcome.output p)) outLimit)
    (herr : ¬ Exceed (utf8Bytes (r.outcome.diagnostics p)) errLimit) :
    (r.told p slots outLimit errLimit).outcome = r.outcome := by
  rw [told, Sink.settle_fresh_of_not_exceed hout, Sink.settle_fresh_of_not_exceed herr]

theorem outcome_told_none : (r.told p slots none none).outcome = r.outcome :=
  outcome_told_of_room (not_exceed_none _) (not_exceed_none _)

/-- One text that exceeds its limit is enough for a failure. -/
theorem outcome_told_of_exceed (h : Exceed (utf8Bytes (r.outcome.output p)) outLimit ∨
      Exceed (utf8Bytes (r.outcome.diagnostics p)) errLimit) :
    (r.told p slots outLimit errLimit).outcome = .fatal (.io Sink.overflowMessage) := by
  rcases h with hout | herr
  · rw [told, Sink.settle_fresh_of_exceed hout]
    exact (Sink.settle_eq_or _ _ _).elim id id
  · rw [told, Sink.settle_fresh_of_exceed herr]

/-- With room for everything both texts are written whole. -/
theorem kept_told_none (r : Run) (p : Parser) (slots : Slots) :
    (r.told p slots none none).out.kept = utf8Bytes (r.outcome.output p) ∧
      (r.told p slots none none).err.kept = utf8Bytes (r.outcome.diagnostics p) :=
  ⟨Sink.kept_write_fresh none _, Sink.kept_write_fresh none _⟩

/-- What is told to limited writers is cut to their limits, and else the same. -/
theorem cutTo_told (hio : ∀ reason, r.outcome ≠ .fatal (.io reason)) :
    (r.told p slots outLimit errLimit).CutTo (r.told p slots none none) outLimit errLimit := by
  obtain ⟨hout, herr⟩ := kept_told_none r p slots
  refine ⟨?_, ?_, ⟨?_, ?_⟩, ?_, rfl, rfl⟩
  · rw [hout]
    exact Sink.kept_write_fresh outLimit _
  · rw [herr]
    exact Sink.kept_write_fresh errLimit _
  · rintro ⟨reason, hreason⟩
    rw [hout, herr]
    by_contra hroom
    rw [outcome_told_of_room (not_or.1 hroom).1 (not_or.1 hroom).2] at hreason
    exact hio reason hreason
  · intro hexceed
    rw [hout, herr] at hexceed
    exact ⟨_, outcome_told_of_exceed hexceed⟩
  · intro hroom
    rw [hout, herr] at hroom
    rw [outcome_told_none, outcome_told_of_room (not_or.1 hroom).1 (not_or.1 hroom).2]

end Run

/-! ## Whose fault it is -/

/-- The fault lies with the arguments, not with the table or a writer. -/
def Fault.OfArguments : Fault → Prop
  | badTable _ | io _ => False
  | _ => True

/-- An option that cannot be assigned is a fault of the arguments. -/
theorem Cursor.ofArguments_of_assign {c : Cursor} {directory : Option String} {e : Entry}
    {form : Form} {f : Fault} (h : c.assign directory e form = .error f) : f.OfArguments := by
  unfold assign at h
  repeat' split at h
  all_goals cases h
  · trivial
  · trivial
  · trivial
  · rename_i hvalue
    unfold takeValue at hvalue
    repeat' split at hvalue
    all_goals cases hvalue
    trivial

namespace Parser

variable {p : Parser}

/-- Whatever an argument is refused for is a fault of the arguments. -/
theorem BreaksOff.ofArguments {alone : Prop} {token : String} {left : List String}
    {switches : List Char} {concerned : List Nat} {cause : Refusal} {f : Fault}
    (h : p.BreaksOff alone token left switches concerned cause) (hcause : cause = .fault f) :
    f.OfArguments := by
  cases h with
  | lone | help => cases hcause
  | unknown | ambiguous | missing =>
    cases hcause
    trivial
  | long _ _ hassign =>
    cases hcause
    exact Cursor.ofArguments_of_assign hassign
  | undeclared =>
    split at hcause
    · cases hcause
    · cases hcause
      unfold unknownShort
      split <;> trivial

/-- A run stops at a fault only for its arguments. -/
theorem ofArguments_of_run {argv : List String} {f : Fault}
    (h : (p.run (Cursor.start p.mode argv)).ending = .fault f) : f.OfArguments := by
  have hbroken : (p.run (Cursor.start p.mode argv)).ending ≠ .complete := by
    rw [h]
    simp
  obtain ⟨i, hfits, -, hending, -⟩ := exists_fits argv hbroken
  apply hfits.breaks.ofArguments
  cases hcause : i.cause with
  | help =>
    rw [h, hcause] at hending
    cases hending
  | fault f' =>
    rw [h, hcause] at hending
    cases hending
    rfl

/-! ## A parse and its writers -/

/-- A run over the arguments is told to fresh writers. -/
theorem parsed_run_eq_told (p : Parser) (argv : List String) (slots : Slots)
    (outLimit errLimit : Option Nat) :
    let run := p.run (Cursor.start p.mode argv)
    run.parsed p slots (.fresh outLimit) (.fresh errLimit) =
      run.told p slots outLimit errLimit := by
  intro run
  cases hending : run.ending with
  | complete =>
    simp only [Run.parsed, Run.outcome, hending, Run.told, Outcome.output, Outcome.diagnostics,
      Sink.write_fresh_empty, Sink.settle_fresh_empty]
  | help =>
    simp only [Run.parsed, Run.outcome, hending, Run.told, Outcome.output, Outcome.diagnostics,
      Sink.write_fresh_empty, Sink.settle_fresh_empty]
  | fault f =>
    have hfault : f.OfArguments := ofArguments_of_run hending
    have hdiagnostics : (Outcome.fatal f).diagnostics p = f.report ++ p.usage := by
      cases f with
      | badTable => cases hfault
      | _ => rfl
    simp only [Run.parsed, Run.outcome, hending, Run.told, Outcome.output, hdiagnostics,
      Sink.write_fresh_empty, Sink.settle_fresh_empty]

/-- With room for everything a parse ends as its run does. -/
theorem outcome_parsed_run (p : Parser) (argv : List String) (slots : Slots) :
    let run := p.run (Cursor.start p.mode argv)
    (run.parsed p slots {} {}).outcome = run.outcome := by
  intro run
  calc (run.parsed p slots {} {}).outcome
      = (run.told p slots none none).outcome :=
        congrArg Parsed.outcome (p.parsed_run_eq_told argv slots none none)
    _ = run.outcome := Run.outcome_told_none

/-- What a parse comes to does not depend on its writers, and is told to them. A defective table
is as much as a run that stops before its first argument. -/
theorem exists_told (p : Parser) (argv : List String) (slots : Slots) :
    ∃ r : Run, (∀ reason, r.outcome ≠ .fatal (.io reason)) ∧
      ((∃ reason, r.outcome = .fatal (.badTable reason)) ↔ p.table.defect? ≠ none) ∧
      ∀ outLimit errLimit, p.parse argv slots (.fresh outLimit) (.fresh errLimit) =
        r.told p slots outLimit errLimit := by
  cases hdefect : p.table.defect? with
  | some defect =>
    refine ⟨⟨[], argv, .fault (.badTable defect.message)⟩, by simp [Run.outcome],
      by simp [Run.outcome], fun outLimit errLimit => ?_⟩
    rw [parse_of_defect hdefect]
    simp only [Run.told, Run.outcome, Outcome.output, Outcome.diagnostics, Sink.write_fresh_empty,
      Sink.settle_fresh_empty]
    rfl
  | none =>
    have hfault {f : Fault} (h : (p.run (Cursor.start p.mode argv)).outcome = .fatal f) :
        f.OfArguments := ofArguments_of_run (Run.ending_of_outcome h)
    refine ⟨p.run (Cursor.start p.mode argv), fun reason h => hfault h, ⟨?_, by simp⟩, ?_⟩
    · rintro ⟨reason, h⟩
      exact (hfault h).elim
    · intro outLimit errLimit
      rw [parse_eq_parsed hdefect]
      exact p.parsed_run_eq_told argv slots outLimit errLimit

/-- With room for everything a parse writes what its outcome calls for: nothing if it goes well, the
usage text alone to the output if help was asked for, and otherwise a diagnostic line to the error
writer, with the usage text behind it unless the table has a defect. Writers with limits keep the
front of these texts. The parse fails if one of them is longer than its limit, and comes to the same
otherwise. The vector and the slots are the same in any case. -/
theorem cutTo_parse (p : Parser) (argv : List String) (slots : Slots)
    (outLimit errLimit : Option Nat) :
    let whole := p.parse argv slots {} {}
    whole.Tells p ∧
      (p.parse argv slots { limit := outLimit } { limit := errLimit }).CutTo whole outLimit
        errLimit := by
  obtain ⟨r, hio, hbad, hparse⟩ := p.exists_told argv slots
  have hwhole : p.parse argv slots {} {} = r.told p slots none none := hparse none none
  have hcut : p.parse argv slots { limit := outLimit } { limit := errLimit } =
      r.told p slots outLimit errLimit := hparse outLimit errLimit
  obtain ⟨hout, herr⟩ := Run.kept_told_none r p slots
  rw [hwhole, hcut]
  refine ⟨⟨?_, ?_, ?_, ?_⟩, Run.cutTo_told hio⟩
  · rw [hout, Run.outcome_told_none]
  · rw [herr, Run.outcome_told_none]
  · rw [Run.outcome_told_none]
    exact hio
  · rw [Run.outcome_told_none]
    exact hbad

/-- The error writer is full in the middle of a word. By then the flag has been set. -/
example :
    let parsed := recorder.parse ["record", "-vx"] [.truth false, .text none] {} { limit := some 9 }
    parsed.outcome = .fatal (.io Sink.overflowMessage) ∧ parsed.err.kept = utf8Bytes "error: un" ∧
      parsed.slots = [.truth true, .text none] := by
  decide +kernel

end Parser

end CommandLine
