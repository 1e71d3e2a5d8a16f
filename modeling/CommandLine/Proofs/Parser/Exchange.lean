import CommandLine.Proofs.Parser.Assigned
import CommandLine.Proofs.Parser.Concatenation

/-!
# Arguments that may stand for each other

Arguments may be replaced by others that are handled with the same effect, wherever they stand in a
vector: behind arguments that were all handled, and in front of any (`Parser.Passes.agrees`).
-/

namespace CommandLine

/-- Two parses come to the same. They may differ in their events and, where they do not go well, in
the vectors, which are the ones handed in. -/
structure Parsed.Agrees (a b : Parsed) : Prop where
  outcome : a.outcome = b.outcome
  argv : ∀ n, a.outcome = .ok n → a.argv = b.argv
  slots : a.slots = b.slots
  out : a.out = b.out
  err : a.err = b.err

/-- The same refusal comes to the same wherever it is met, if the events before it have the same
effect. -/
theorem Halt.agrees_refused (r : Refusal) {c d : Cursor} {events events' : List Event}
    {slots : Slots} (hslots : slots.after events = slots.after events') (p : Parser)
    (out err : Sink) :
    (((refused r).run c events).parsed p slots out err).Agrees
      (((refused r).run d events').parsed p slots out err) := by
  refine ⟨?_, ?_, ?_, ?_, ?_⟩
  · cases r <;> rfl
  · intro n hn
    exact absurd hn (Run.outcome_parsed_ne_ok r.ending_ne_complete p slots out err n)
  · cases r <;> exact hslots
  · cases r <;> rfl
  · cases r <;> rfl

/-- The same end at two cursors comes to the same, if as much has been collected, and the events
before it have the same effect. -/
theorem Halt.agrees (halt : Halt) {c d : Cursor} {events events' : List Event} {slots : Slots}
    (hfront : c.kept ++ c.positionals = d.kept ++ d.positionals)
    (hslots : slots.after events = slots.after events') (p : Parser) (out err : Sink) :
    ((halt.run c events).parsed p slots out err).Agrees
      ((halt.run d events').parsed p slots out err) := by
  cases halt with
  | complete residual =>
    rw [Halt.parsed_complete, Halt.parsed_complete, hfront]
    exact ⟨rfl, fun _ _ => rfl, hslots, rfl, rfl⟩
  | refused r => exact agrees_refused r hslots p out err

namespace Parser

variable {p : Parser} {first second : List String} {groups : List Group} {events : List Event}

/-- All of a vector is handled, in these groups and with these events. -/
structure Passes (p : Parser) (argv : List String) (groups : List Group) (events : List Event) :
    Prop where
  valid : p.table.defect? = none
  notLone : ¬ (Cursor.start p.mode argv).LoneHelp
  rest : (Cursor.start p.mode argv).rest = groups.flatMap Group.tokens
  handles : p.HandlesAll groups events

/-- A parse that goes well without a stop handles all of its vector. -/
theorem exists_passes {argv : List String} {slots : Slots} {out err : Sink} {n : Nat}
    (hok : (p.parse argv slots out err).outcome = .ok n)
    (hall : (p.parse argv slots out err).HandledAll) :
    ∃ groups events, p.Passes argv groups events := by
  obtain ⟨hvalid, hlone, groups, events, left, ends, residual, hrest, hgroups, hhalts⟩ :=
    course_of_ok hok
  have hparse := parse_of_course hvalid hlone hrest hgroups hhalts slots out err
  have hends : ∀ e ∈ ends, e.isStop = false := by
    intro e he
    have hmem : e ∈ (p.parse argv slots out err).events := by
      rw [hparse]
      exact List.mem_append_left _ (List.mem_append_right events he)
    exact hall e hmem
  obtain ⟨rfl, -, -⟩ := hhalts.eq_nil hends
  exact ⟨groups, events, hvalid, hlone, by simpa using hrest, hgroups⟩

namespace Passes

/-- A vector behind one that was all handled takes the course of both. -/
theorem parse_behind (h : p.Passes first groups events)
    (hkeeps : p.mode.keepFirst = true → first ≠ []) (hsecond : second ≠ ["-h"])
    {groups' : List Group} {events' ends : List Event} {left : List String} {halt : Halt}
    (hsplit : second = groups'.flatMap Group.tokens ++ left)
    (hgroups : p.HandlesAll groups' events') (hhalts : p.Halts left ends halt) (slots : Slots)
    (out err : Sink) :
    p.parse (first ++ second) slots out err =
      (halt.run ((Cursor.start p.mode (first ++ second)).pass (groups ++ groups') left)
        (events ++ events' ++ ends)).parsed p slots out err := by
  have hrest : (Cursor.start p.mode (first ++ second)).rest =
      (groups ++ groups').flatMap Group.tokens ++ left := by
    rw [Cursor.start_append_of_keeps hkeeps, List.flatMap_append, List.append_assoc, ← hsplit,
      ← h.rest]
  have hlone := not_loneHelp_append hkeeps h.notLone hsecond
  rw [parse_eq_parsed h.valid,
    run_of_course (Cursor.attached_start _ _) hlone hrest (h.handles.append hgroups) hhalts]

/-- What a cursor has collected behind the vector and some more groups. -/
theorem collected (hkeeps : p.mode.keepFirst = true → first ≠ []) (groups : List Group)
    (second left : List String) :
    let c := (Cursor.start p.mode (first ++ second)).pass groups left
    c.kept ++ c.positionals =
      (Cursor.start p.mode first).kept ++ groups.flatMap Group.positionals := by
  rw [Cursor.start_append_of_keeps hkeeps]
  simp [Cursor.pass, Cursor.positionals_start]

/-- Groups with the same positional arguments and the same effect on the slots may stand for each
other. -/
theorem agrees (h : p.Passes first groups events) (hkeeps : p.mode.keepFirst = true → first ≠ [])
    {here there : List Group} {events₁ events₂ : List Event} (hhere : p.HandlesAll here events₁)
    (hthere : p.HandlesAll there events₂)
    (hpositionals : here.flatMap Group.positionals = there.flatMap Group.positionals)
    (hslots : ∀ slots : Slots, slots.after events₁ = slots.after events₂) {second : List String}
    (hlone₁ : here.flatMap Group.tokens ++ second ≠ ["-h"])
    (hlone₂ : there.flatMap Group.tokens ++ second ≠ ["-h"]) (slots : Slots) (out err : Sink) :
    (p.parse (first ++ (here.flatMap Group.tokens ++ second)) slots out err).Agrees
      (p.parse (first ++ (there.flatMap Group.tokens ++ second)) slots out err) := by
  -- what follows takes the same course behind either
  obtain ⟨groups', events', left, ends, halt, hsplit, hgroups, hhalts⟩ := p.exists_course second
  have hsplit₁ : here.flatMap Group.tokens ++ second =
      (here ++ groups').flatMap Group.tokens ++ left := by
    rw [hsplit, List.flatMap_append, List.append_assoc]
  have hsplit₂ : there.flatMap Group.tokens ++ second =
      (there ++ groups').flatMap Group.tokens ++ left := by
    rw [hsplit, List.flatMap_append, List.append_assoc]
  rw [h.parse_behind hkeeps hlone₁ hsplit₁ (hhere.append hgroups) hhalts,
    h.parse_behind hkeeps hlone₂ hsplit₂ (hthere.append hgroups) hhalts]
  apply Halt.agrees
  · rw [collected hkeeps, collected hkeeps]
    simp only [List.flatMap_append, hpositionals]
  · simp only [Slots.after_append, hslots]

end Passes

end Parser

end CommandLine
