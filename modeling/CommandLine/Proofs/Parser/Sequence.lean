import CommandLine.Proofs.Bound.InPlace
import CommandLine.Proofs.Parser.Streams
import CommandLine.Session

/-!
# Parses in a row

A parser carries nothing from one parse to the next but the slots that it has overwritten, and no
parse looks at what the slots hold. In a sequence of parses each comes to the same as one by a fresh
parser, whatever the slots held before, and afterwards a slot holds what the last assignment to it
in the whole sequence left there (`BoundParser.parseCalls_writes`).

## Strategy

A parse in place does what `Parser.parse` says of the parser without its slots and of the slots
(`BoundParser.parse_inPlace`). The first of the two is the same before every parse of a sequence.
-/

namespace CommandLine

/-- What a parse leaves behind apart from the slots. -/
def Parsed.forgetSlots (r : Parsed) : Parsed := { r with slots := [] }

/-- The assignments that a parse has made. -/
def Parsed.assignments (r : Parsed) : List Assignment := r.events.filterMap Event.assignment?

/-- Of the assignments to a slot, if there are any, one is the last. -/
theorem exists_last_assignment (assignments : List Assignment) (j : Nat) :
    (∀ a ∈ assignments, a.index ≠ j) ∨
      ∃ before a after, assignments = before ++ a :: after ∧ a.index = j ∧
        ∀ b ∈ after, b.index ≠ j := by
  induction assignments with
  | nil => exact .inl (by simp)
  | cons a more ih =>
    rcases ih with hnone | ⟨before, b, after, rfl, hindex, hlast⟩
    · by_cases ha : a.index = j
      · exact .inr ⟨[], a, more, rfl, ha, hnone⟩
      · exact .inl (by simpa using ⟨ha, hnone⟩)
    · exact .inr ⟨a :: before, b, after, rfl, hindex, hlast⟩

/-! ## One parse -/

namespace Parser

/-- What a parse comes to does not depend on what the slots held. -/
theorem forgetSlots_parse (p : Parser) (argv : List String) (slots slots' : Slots)
    (out err : Sink) :
    (p.parse argv slots out err).forgetSlots = (p.parse argv slots' out err).forgetSlots := by
  cases hdefect : p.table.defect? with
  | some defect =>
    rw [parse_of_defect hdefect, parse_of_defect hdefect]
    rfl
  | none =>
    rw [parse_eq_parsed hdefect, parse_eq_parsed hdefect]
    unfold Run.parsed
    split <;> rfl

/-- A parse overwrites slots by its assignments, and in no other way. -/
theorem slots_parse (p : Parser) (argv : List String) (slots : Slots) (out err : Sink) :
    (p.parse argv slots out err).slots =
      (p.parse argv slots out err).assignments.foldl Assignment.apply slots := by
  cases hdefect : p.table.defect? with
  | some defect =>
    rw [parse_of_defect hdefect]
    rfl
  | none =>
    rw [parse_eq_parsed hdefect]
    unfold Run.parsed
    split <;> rfl

end Parser

namespace BoundParsed

/-- All that a parse in place leaves behind but the parser. -/
def report (r : BoundParsed) : Parsed := r.parsed.forgetSlots

/-- The assignments that a parse in place has made. -/
def assignments (r : BoundParsed) : List Assignment := r.report.assignments

end BoundParsed

namespace BoundParser

variable {p p' : BoundParser}

/-- What a parse comes to depends on the parser without its slots. -/
theorem report_parse (h : p'.unbound = p.unbound) (argv : List String) (out err : Sink) :
    (p'.parse argv out err).report = (p.parse argv out err).report := by
  have hparsed := (p.parse_inPlace argv out err).1
  have hparsed' := (p'.parse_inPlace argv out err).1
  rw [BoundParsed.report, BoundParsed.report, hparsed, hparsed', h]
  exact p.unbound.forgetSlots_parse argv p'.slots p.slots out err

/-- A parse gives back the parser that it was given, with other contents of its slots. -/
theorem unbound_parse (p : BoundParser) (argv : List String) (out err : Sink) :
    (p.parse argv out err).parser.unbound = p.unbound := (p.parse_inPlace argv out err).2

/-- A parse overwrites slots by its assignments, and in no other way. -/
theorem slots_parser_parse (p : BoundParser) (argv : List String) (out err : Sink) :
    (p.parse argv out err).parser.slots =
      (p.parse argv out err).assignments.foldl Assignment.apply p.slots := by
  have hslots := p.unbound.slots_parse argv p.slots out err
  rw [← (p.parse_inPlace argv out err).1] at hslots
  exact hslots

/-! ## A sequence of parses -/

/-- All assignments of a sequence of parses, in their order. -/
def assignmentsOfCalls (p : BoundParser) (calls : List Call) : List Assignment :=
  (p.parseCalls calls).flatMap BoundParsed.assignments

/-- One parse of a sequence, as a turn of a session with one table. -/
def turn (p : BoundParser) (c : Call) : Turn :=
  { parser := p.unbound, argv := some c.argv, out := c.out, err := c.err }

/-- A session whose turns all have their own vectors is a sequence of parses in place. -/
theorem run_turns (p : BoundParser) (argv : List String) (calls : List Call) :
    Session.run ⟨argv, [p.slots]⟩ (calls.map p.turn) =
      (p.parseCalls calls).map BoundParsed.parsed := by
  induction calls generalizing p argv with
  | nil => rfl
  | cons c more ih =>
    let parsed := p.unbound.parse c.argv p.slots c.out c.err
    have htake : Session.take ⟨argv, [p.slots]⟩ (p.turn c) =
        (parsed, ⟨parsed.argv, [parsed.slots]⟩) := rfl
    have hparsed : (p.parse c.argv c.out c.err).parsed = parsed := (p.parse_inPlace _ _ _).1
    have hturn : (p.parse c.argv c.out c.err).parser.turn = p.turn := by
      funext c'
      rw [turn, turn, unbound_parse]
    rw [List.map_cons, Session.run, htake, ← hparsed, ← hturn, parseCalls, List.map_cons]
    exact congrArg _ (ih _ _)

/-- Vectors that are parsed with writers of their own are calls like any other. -/
theorem parseEach_unbound (p : BoundParser) (argvs : List (List String)) :
    p.unbound.parseEach p.slots argvs =
      (p.parseCalls (argvs.map fun argv => { argv })).map BoundParsed.parsed := by
  induction argvs generalizing p with
  | nil => rfl
  | cons argv more ih =>
    obtain ⟨hparsed, hunbound⟩ := p.parse_inPlace argv {} {}
    have hmore := ih (p.parse argv {} {}).parser
    rw [hunbound] at hmore
    rw [Parser.parseEach, List.map_cons, parseCalls, List.map_cons, ← hmore, ← hparsed]
    rfl

/-- Each parse of a sequence comes to the same as one by a fresh parser. -/
theorem map_report_parseCalls {fresh : BoundParser} (h : fresh.unbound = p.unbound)
    (calls : List Call) :
    (p.parseCalls calls).map BoundParsed.report =
      calls.map fun c => (fresh.parse c.argv c.out c.err).report := by
  induction calls generalizing p with
  | nil => rfl
  | cons c more ih =>
    have hnext : fresh.unbound = (p.parse c.argv c.out c.err).parser.unbound :=
      h.trans (p.unbound_parse c.argv c.out c.err).symm
    rw [parseCalls, List.map_cons, List.map_cons, ih hnext, report_parse h]

theorem unbound_afterCalls (p : BoundParser) (calls : List Call) :
    (p.afterCalls calls).unbound = p.unbound := by
  induction calls generalizing p with
  | nil => rfl
  | cons c more ih => rw [afterCalls, ih, unbound_parse]

/-- The slots after a sequence are overwritten by all its assignments. -/
theorem slots_afterCalls (p : BoundParser) (calls : List Call) :
    (p.afterCalls calls).slots =
      (p.assignmentsOfCalls calls).foldl Assignment.apply p.slots := by
  induction calls generalizing p with
  | nil => rfl
  | cons c more ih =>
    rw [afterCalls, ih, slots_parser_parse, assignmentsOfCalls, assignmentsOfCalls, parseCalls,
      List.flatMap_cons, List.foldl_append]

/-- A sequence makes the same assignments whatever the slots hold. -/
theorem assignmentsOfCalls_congr (h : p'.unbound = p.unbound) (calls : List Call) :
    p'.assignmentsOfCalls calls = p.assignmentsOfCalls calls := by
  have hreports := (p'.map_report_parseCalls rfl calls).trans (map_report_parseCalls h calls).symm
  have hassignments := congrArg (List.flatMap Parsed.assignments) hreports
  rw [List.flatMap_map, List.flatMap_map] at hassignments
  exact hassignments

/-- Slots are only written. In two sequences of the same parses, from any two contents of the slots,
each parse comes to what it comes to with a fresh parser, and both parsers are given back as they
were but for the slots. A slot has then been assigned in no parse and holds what it did, or holds
what the last assignment to it in the sequence left, and that is the same in both. -/
theorem parseCalls_writes (hsame : p'.unbound = p.unbound) (calls : List Call) :
    (∀ fresh : BoundParser, fresh.unbound = p.unbound →
        (p.parseCalls calls).map BoundParsed.report =
            calls.map (fun c => (fresh.parse c.argv c.out c.err).report) ∧
          (p'.parseCalls calls).map BoundParsed.report =
            calls.map (fun c => (fresh.parse c.argv c.out c.err).report)) ∧
      (p.afterCalls calls).unbound = p.unbound ∧ (p'.afterCalls calls).unbound = p.unbound ∧
      p'.assignmentsOfCalls calls = p.assignmentsOfCalls calls ∧
      ∀ j < p.options.length,
        ((∀ a ∈ p.assignmentsOfCalls calls, a.index ≠ j) ∧
            (p.afterCalls calls).slots[j]? = p.slots[j]? ∧
            (p'.afterCalls calls).slots[j]? = p'.slots[j]?) ∨
          ∃ before a after, p.assignmentsOfCalls calls = before ++ a :: after ∧ a.index = j ∧
            (∀ b ∈ after, b.index ≠ j) ∧ (p.afterCalls calls).slots[j]? = some a.content ∧
            (p'.afterCalls calls).slots[j]? = some a.content := by
  have hassignments := assignmentsOfCalls_congr hsame calls
  refine ⟨fun fresh h => ⟨map_report_parseCalls h calls, map_report_parseCalls (h.trans hsame.symm)
    calls⟩, p.unbound_afterCalls calls, (p'.unbound_afterCalls calls).trans hsame, hassignments, ?_⟩
  intro j hj
  have hlength : p'.options.length = p.options.length := by
    have htable := congrArg List.length (congrArg Parser.table hsame)
    simpa [unbound, BoundTable.entries] using htable
  have hslot : j < p.slots.length := by simpa [slots, BoundTable.slots] using hj
  have hslot' : j < p'.slots.length := by simpa [slots, BoundTable.slots, hlength] using hj
  rw [slots_afterCalls, slots_afterCalls, hassignments]
  rcases exists_last_assignment (p.assignmentsOfCalls calls) j with
    hnone | ⟨before, a, after, hsplit, rfl, hlast⟩
  · exact .inl ⟨hnone, Slots.getElem?_foldl_apply hnone p.slots,
      Slots.getElem?_foldl_apply hnone p'.slots⟩
  · refine .inr ⟨before, a, after, hsplit, rfl, hlast, ?_, ?_⟩
    · rw [hsplit, Slots.getElem?_foldl_apply_of_last hlast hslot]
    · rw [hsplit, Slots.getElem?_foldl_apply_of_last hlast hslot']

/-- A recorder whose slots hold what they are given. -/
def slottedRecorder (take : Int32) (verbose : Bool) (output : Option String) : BoundParser where
  options :=
    [⟨{ kind := .switch 1, long := "take", short := some 't' }, .number take, rfl⟩,
     ⟨{ kind := .flag, long := "verbose", short := some 'v' }, .truth verbose, rfl⟩,
     ⟨{ kind := .text, long := "output", short := some 'o' }, .text output, rfl⟩]
  mode := { keepFirst := true }

/-- The second of these parses fails at its last argument, and has not even room to say so. The
third asks for help. All have overwritten a slot by then, and only the number that was never
assigned tells the two recorders apart. -/
theorem parseCalls_writes_slottedRecorder :
    let p := slottedRecorder 3 false none
    let p' := slottedRecorder 7 true (some "old")
    let calls : List Call :=
      [{ argv := ["record", "-otake", "left"] },
        { argv := ["record", "-v", "--output"], err := { limit := some 3 } },
        { argv := ["record", "-ofile", "--help"] }]
    (p'.unbound = p.unbound) ∧
      (p.parseCalls calls).map (·.outcome) =
        [.ok 2, .fatal (.io Sink.overflowMessage), .help] ∧
      (p'.parseCalls calls).map BoundParsed.report = (p.parseCalls calls).map BoundParsed.report ∧
      (p.afterCalls calls).slots = [.number 3, .truth true, .text (some "file")] ∧
      (p'.afterCalls calls).slots = [.number 7, .truth true, .text (some "file")] := by
  intro p p' calls
  have hsame : p'.unbound = p.unbound := rfl
  obtain ⟨hreports, -⟩ := parseCalls_writes hsame calls
  obtain ⟨hreport, hreport'⟩ := hreports p rfl
  refine ⟨hsame, by decide +kernel, hreport'.trans hreport.symm, ?_, ?_⟩
  · decide +kernel
  · decide +kernel

end BoundParser

end CommandLine
