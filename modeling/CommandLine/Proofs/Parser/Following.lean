import CommandLine.Proofs.Parser.Course
import CommandLine.Proofs.Usage.Writing

/-!
# Runs follow their course

A run over a vector is the course of the vector, from wherever the cursor stands
(`Parser.run_of_course`), and a parse is its run, written out. Only a lone `-h` is told apart from
the same argument among others.
-/

namespace CommandLine

namespace Cursor

/-- The cursor behind some groups, with the arguments that are left before it. -/
def pass (c : Cursor) (groups : List Group) (left : List String) : Cursor :=
  { c with
    handled := c.handled ++ groups.flatMap Group.tokens
    rest := left
    positionals := c.positionals ++ groups.flatMap Group.positionals }

/-- All that is to be parsed is one `-h`, which asks for help even where `h` is declared. -/
def LoneHelp (c : Cursor) : Prop := c.handled = [] ∧ c.rest = ["-h"]

theorem pass_nil (c : Cursor) : c.pass [] c.rest = c := by
  simp [pass]

theorem pass_cons (c : Cursor) (g : Group) (groups : List Group) (middle left : List String) :
    (c.pass [g] middle).pass groups left = c.pass (g :: groups) left := by
  simp [pass]

/-- Behind a group the cursor does not stand on a lone argument. -/
theorem not_loneHelp_pass (c : Cursor) (g : Group) (groups : List Group) (left : List String) :
    ¬ (c.pass (g :: groups) left).LoneHelp := by
  intro h
  have hnil : c.handled ++ (g.tokens ++ groups.flatMap Group.tokens) = [] := h.1
  have htokens : g.tokens = [] := (List.append_eq_nil_iff.1 (List.append_eq_nil_iff.1 hnil).2).1
  exact g.tokens_ne_nil htokens

/-- The check of `Parser.step` for a lone `-h` fails wherever the cursor is not in front of one. -/
theorem not_isLone_of_not_loneHelp {c : Cursor} {token : String} {more : List String}
    (hlone : ¬ c.LoneHelp) (hrest : c.rest = token :: more) :
    ¬ (c.isLone = true ∧ token.toList = ['-', 'h']) := by
  intro h
  obtain ⟨hisLone, htoken⟩ := h
  simp only [isLone, hrest, List.length_cons, Bool.and_eq_true, List.isEmpty_iff, beq_iff_eq,
    Nat.add_eq_right, List.length_eq_zero_iff] at hisLone
  have hhelp : token = "-h" := String.toList_inj.1 htoken
  exact hlone ⟨hisLone.1, by rw [hrest, hisLone.2, hhelp]⟩

end Cursor

/-- The run that ends like this after `events`, seen from the cursor `c`. -/
def Halt.run (c : Cursor) (events : List Event) : Halt → Run
  | complete left =>
    let argv := c.kept ++ c.positionals ++ left
    ⟨events ++ [.finished argv.length], argv, .complete⟩
  | refused r => ⟨events, c.tokens, r.ending⟩

theorem Halt.after_run (halt : Halt) (c : Cursor) (events ends : List Event) :
    (halt.run c ends).after events = halt.run c (events ++ ends) := by
  cases halt <;> simp [Halt.run, Run.after]

namespace Parser

variable {p : Parser} {c : Cursor}

/-! ## The cursor follows the course -/

/-- What is mentioned in the argument under the cursor is assigned, and the cursor stands on the
value that was taken. -/
theorem perform_of_settles {mentions : List Mention} {value : Option String}
    {events : List Event} (hc : c.attached = none) (hsound : ∀ m ∈ mentions, m.Sound)
    (h : p.Settles mentions value events) {token : String} {left : List String}
    (hrest : c.rest = token :: (value.toList ++ left)) :
    p.perform c mentions .settled =
      (events, .next (if value.isSome then c.advance else c)) := by
  induction h with
  | nil => rfl
  | own hwants hvalue hmore ih =>
    have hlater := ih (fun m hm => hsound m (List.mem_cons_of_mem _ hm)) hrest
    rw [perform_cons_of_value hc (hsound _ List.mem_cons_self) hwants hvalue, hlater]
  | following hwants =>
    have htake : c.takeFollowing? = some (_, c.advance) :=
      Cursor.takeFollowing?_eq_some_iff.2 ⟨rfl, token, left, hrest⟩
    rw [perform_singleton, assigned_of_wantsNext hc hwants, htake]
    rfl

/-- An argument is refused under any cursor, whatever lies behind it. -/
theorem perform_of_refuses {mentions : List Mention} {close : Close} {following : List String}
    {events : List Event} {r : Refusal} (hc : c.attached = none)
    (hsound : ∀ m ∈ mentions, m.Sound) (h : p.Refuses mentions close following events r)
    {token : String} (hrest : c.rest = token :: following) :
    p.perform c mentions close = (events, r.step) := by
  induction h with
  | closed => rfl
  | own hwants hvalue hmore ih =>
    have hlater := ih (fun m hm => hsound m (List.mem_cons_of_mem _ hm)) hrest
    rw [perform_cons_of_value hc (hsound _ List.mem_cons_self) hwants hvalue, hlater]
  | unfit hwants hvalue =>
    exact perform_cons_of_unfit hc (hsound _ List.mem_cons_self) hwants hvalue
  | missing hwants =>
    have htake : c.takeFollowing? = none := by
      simp [Cursor.takeFollowing?, hrest]
    have hassigned := assigned_of_wantsNext (p := p) hc hwants
    rw [htake] at hassigned
    rw [perform_cons_of_fail hassigned]
    rfl

/-- A run over a group goes on behind it. -/
theorem run_of_handles {g : Group} {events : List Event} {left : List String}
    (hc : c.attached = none) (hlone : ¬ c.LoneHelp) (h : p.Handles g events)
    (hrest : c.rest = g.tokens ++ left) :
    p.run c = (p.run (c.pass [g] left)).after events := by
  cases h with
  | @positional token hgoes hword =>
    have hrest' : c.rest = token :: left := hrest
    -- the cursor stands on the argument that it has collected
    have hadvance : (c.collect token).advance = c.pass [.positional token] left := by
      simp [Cursor.advance, Cursor.collect, Cursor.pass, Group.tokens, Group.positionals, hrest']
    rw [run_of_rest_cons hrest', step_eq hc,
      if_neg (Cursor.not_isLone_of_not_loneHelp hlone hrest'), hword]
    simp only [hgoes, Bool.false_eq_true, if_false, hadvance]
  | @option token value phrase events hword hclose hsettles =>
    have hrest' : c.rest = token :: (value.toList ++ left) := hrest
    have hperform := perform_of_settles hc (Table.regular_of_word hword).sound hsettles hrest'
    -- the cursor stands on the value that was taken, or still on the argument
    have hadvance : (if value.isSome then c.advance else c).advance =
        c.pass [.option token value] left := by
      cases value <;>
        simp [Cursor.advance, Cursor.pass, Group.tokens, Group.positionals, hrest']
    rw [run_of_rest_cons hrest', step_eq hc,
      if_neg (Cursor.not_isLone_of_not_loneHelp hlone hrest'), hword]
    simp only [say, hclose, hperform, hadvance]

/-- A run over groups goes on behind the last of them. -/
theorem run_of_handlesAll {groups : List Group} {events : List Event} {left : List String}
    (hc : c.attached = none) (hlone : ¬ c.LoneHelp) (h : p.HandlesAll groups events)
    (hrest : c.rest = groups.flatMap Group.tokens ++ left) :
    p.run c = (p.run (c.pass groups left)).after events := by
  induction h generalizing c with
  | nil =>
    have hleft : c.rest = left := hrest
    rw [← hleft, Cursor.pass_nil]
    rfl
  | @cons g groups events later hgroup hmore ih =>
    have hsplit : c.rest = g.tokens ++ (groups.flatMap Group.tokens ++ left) := by
      rw [hrest, List.flatMap_cons, List.append_assoc]
    have hnext : ¬ (c.pass [g] (groups.flatMap Group.tokens ++ left)).LoneHelp :=
      Cursor.not_loneHelp_pass c g [] _
    rw [run_of_handles hc hlone hgroup hsplit, ih (c := c.pass [g] _) hc hnext rfl,
      Cursor.pass_cons]
    simp [Run.after]

/-- A run at its end. -/
theorem run_of_halts {ends : List Event} {halt : Halt} (hc : c.attached = none)
    (hlone : ¬ c.LoneHelp) (h : p.Halts c.rest ends halt) : p.run c = halt.run c ends := by
  generalize hrest : c.rest = rest at h
  cases h with
  | exhausted =>
    rw [run_of_rest_nil hrest]
    simp [Cursor.finish, Cursor.residual, Halt.run, hrest]
  | @terminated token left hword =>
    rw [run_of_rest_cons hrest, step_eq hc,
      if_neg (Cursor.not_isLone_of_not_loneHelp hlone hrest), hword]
    simp [Cursor.finish, Cursor.residual, Cursor.advance, Halt.run, Run.after, hrest]
  | @stopped token left hstops hword =>
    rw [run_of_rest_cons hrest, step_eq hc,
      if_neg (Cursor.not_isLone_of_not_loneHelp hlone hrest), hword]
    simp [hstops, Cursor.finish, Cursor.residual, Halt.run, Run.after, hrest]
  | @refused token left phrase events r hword hrefuses =>
    have hperform := perform_of_refuses hc (Table.regular_of_word hword).sound hrefuses hrest
    rw [run_of_rest_cons hrest, step_eq hc,
      if_neg (Cursor.not_isLone_of_not_loneHelp hlone hrest), hword]
    cases r <;> simp [say, hperform, Refusal.step, Refusal.ending, Halt.run]

/-- A run follows the course of its arguments. -/
theorem run_of_course {groups : List Group} {events ends : List Event} {left : List String}
    {halt : Halt} (hc : c.attached = none) (hlone : ¬ c.LoneHelp)
    (hrest : c.rest = groups.flatMap Group.tokens ++ left) (h : p.HandlesAll groups events)
    (hhalt : p.Halts left ends halt) :
    p.run c = halt.run (c.pass groups left) (events ++ ends) := by
  -- only a cursor that has not moved could be in front of a lone `-h`
  have hlone' : ¬ (c.pass groups left).LoneHelp := by
    cases groups with
    | nil =>
      have hleft : c.rest = left := hrest
      rwa [← hleft, Cursor.pass_nil]
    | cons g more => exact Cursor.not_loneHelp_pass c g more left
  have hend : p.run (c.pass groups left) = halt.run (c.pass groups left) ends :=
    run_of_halts (c := c.pass groups left) hc hlone' hhalt
  rw [run_of_handlesAll hc hlone h hrest, hend, Halt.after_run]

/-- A lone `-h` ends the run at once. -/
theorem run_of_loneHelp (hlone : c.LoneHelp) : p.run c = ⟨[], c.tokens, .help⟩ := by
  obtain ⟨hhandled, hrest⟩ := hlone
  have hstep : p.step c "-h" = ([], .help) := by
    have hname : ('h' : Char) ≠ '-' := by decide
    rw [step_of_cluster hname rfl, if_pos (by simp [Cursor.isLone, hhandled, hrest])]
  rw [run_of_rest_cons hrest, hstep]

end Parser

/-! ## A parse is its run, written out -/

/-- What a parse leaves behind after a run. -/
def Run.parsed (r : Run) (p : Parser) (slots : Slots) (out err : Sink) : Parsed :=
  match r.ending with
  | .complete =>
    { outcome := .ok r.argv.length
      argv := r.argv, slots := slots.after r.events, out, err, events := r.events }
  | .help =>
    { outcome := out.settle p.usage .help
      argv := r.argv, slots := slots.after r.events, out := out.write p.usage, err
      events := r.events }
  | .fault fault =>
    let text := fault.report ++ p.usage
    { outcome := err.settle text (.fatal fault)
      argv := r.argv, slots := slots.after r.events, out, err := err.write text
      events := r.events }

@[simp] theorem Run.argv_parsed (r : Run) (p : Parser) (slots : Slots) (out err : Sink) :
    (r.parsed p slots out err).argv = r.argv := by
  unfold parsed
  split <;> rfl

@[simp] theorem Run.slots_parsed (r : Run) (p : Parser) (slots : Slots) (out err : Sink) :
    (r.parsed p slots out err).slots = slots.after r.events := by
  unfold parsed
  split <;> rfl

theorem Run.outcome_parsed_of_complete {r : Run} (h : r.ending = .complete) (p : Parser)
    (slots : Slots) (out err : Sink) : (r.parsed p slots out err).outcome = .ok r.argv.length := by
  simp only [parsed, h]

/-- The number of arguments left changes no slot. -/
theorem Slots.after_finished (slots : Slots) (events : List Event) (n : Nat) :
    slots.after (events ++ [.finished n]) = slots.after events := by
  rw [Slots.after_append]
  rfl

/-- What a parse leaves behind when its course ends well. -/
theorem Halt.parsed_complete (residual : List String) (c : Cursor) (events : List Event)
    (p : Parser) (slots : Slots) (out err : Sink) :
    ((Halt.complete residual).run c events).parsed p slots out err =
      let argv := c.kept ++ c.positionals ++ residual
      { outcome := .ok argv.length, argv, slots := slots.after events, out, err
        events := events ++ [.finished argv.length] } := by
  simp [Halt.run, Run.parsed, Slots.after_finished]

/-- Writing on the way never makes a parse go well. -/
theorem Sink.settle_ne_ok {outcome : Outcome} {n : Nat} (h : outcome ≠ .ok n) (s : Sink)
    (text : String) : s.settle text outcome ≠ .ok n := by
  unfold settle
  split
  · exact h
  · simp

/-- A run that was refused does not make a parse that goes well. -/
theorem Run.outcome_parsed_ne_ok {r : Run} (h : r.ending ≠ .complete) (p : Parser) (slots : Slots)
    (out err : Sink) (n : Nat) : (r.parsed p slots out err).outcome ≠ .ok n := by
  unfold parsed
  split
  · rename_i hcomplete
    exact absurd hcomplete h
  · exact Sink.settle_ne_ok (by simp) out _
  · exact Sink.settle_ne_ok (by simp) err _

namespace Cursor

theorem attached_start (mode : Mode) (argv : List String) : (start mode argv).attached = none := by
  unfold start
  split <;> rfl

theorem handled_start (mode : Mode) (argv : List String) : (start mode argv).handled = [] := by
  unfold start
  split <;> rfl

theorem positionals_start (mode : Mode) (argv : List String) :
    (start mode argv).positionals = [] := by
  unfold start
  split <;> rfl

theorem kept_start (mode : Mode) (argv : List String) :
    (start mode argv).kept = if mode.keepFirst then argv.take 1 else [] := by
  unfold start
  split <;> rfl

/-- The argument that is kept and those that are parsed make up the vector. -/
theorem kept_append_rest_start (mode : Mode) (argv : List String) :
    (start mode argv).kept ++ (start mode argv).rest = argv := by
  have htokens := tokens_start mode argv
  rwa [tokens, handled_start, List.append_nil] at htokens

/-- A first argument is kept whatever comes after the vector. -/
theorem start_append (mode : Mode) {first : List String} (hfirst : first ≠ [])
    (second : List String) :
    start mode (first ++ second) =
      { start mode first with rest := (start mode first).rest ++ second } := by
  obtain ⟨token, more, rfl⟩ := List.exists_cons_of_ne_nil hfirst
  unfold start
  split <;> simp

/-- Where no first argument is kept, it does not matter whether there is one. -/
theorem start_append_of_keeps {mode : Mode} {first : List String}
    (hkeeps : mode.keepFirst = true → first ≠ []) (second : List String) :
    start mode (first ++ second) =
      { start mode first with rest := (start mode first).rest ++ second } := by
  by_cases hkeep : mode.keepFirst = true
  · exact start_append mode (hkeeps hkeep) second
  · unfold start
    rw [if_neg hkeep, if_neg hkeep]

end Cursor

namespace Parser

variable {p : Parser}

theorem parse_eq_parsed (hvalid : p.table.defect? = none) (argv : List String) (slots : Slots)
    (out err : Sink) :
    p.parse argv slots out err = (p.run (Cursor.start p.mode argv)).parsed p slots out err := by
  cases hending : (p.run (Cursor.start p.mode argv)).ending <;>
    simp only [parse, Run.parsed, hvalid, hending, p.writeUsage_eq, Fault.write_eq,
      Writing.put_put, Writing.settle_put]

/-- A table with a defect is reported, and the parse leaves all else as it is. -/
theorem parse_of_defect {defect : Defect} (h : p.table.defect? = some defect) (argv : List String)
    (slots : Slots) (out err : Sink) :
    let fault := Fault.badTable defect.message
    p.parse argv slots out err =
      { outcome := err.settle fault.report (.fatal fault), argv, slots, out
        err := err.write fault.report, events := [] } := by
  simp only [parse, h, Fault.write_eq, Writing.settle_put]

/-- A parse goes well only with a sound table, and if its course ends well. -/
theorem course_of_ok {argv : List String} {slots : Slots} {out err : Sink} {n : Nat}
    (h : (p.parse argv slots out err).outcome = .ok n) :
    p.table.defect? = none ∧ ¬ (Cursor.start p.mode argv).LoneHelp ∧
      ∃ groups events left ends residual,
        (Cursor.start p.mode argv).rest = groups.flatMap Group.tokens ++ left ∧
        p.HandlesAll groups events ∧ p.Halts left ends (.complete residual) := by
  have hvalid : p.table.defect? = none := by
    cases hdefect : p.table.defect? with
    | none => rfl
    | some defect =>
      rw [parse_of_defect hdefect] at h
      exact absurd h (Sink.settle_ne_ok (by simp) err _)
  rw [parse_eq_parsed hvalid] at h
  have hlone : ¬ (Cursor.start p.mode argv).LoneHelp := by
    intro hlone
    rw [run_of_loneHelp hlone] at h
    exact Run.outcome_parsed_ne_ok (by simp) p slots out err n h
  -- of the ends that a course may have, only one makes the parse go well
  obtain ⟨groups, events, left, ends, halt, hrest, hall, hhalts⟩ :=
    p.exists_course (Cursor.start p.mode argv).rest
  refine ⟨hvalid, hlone, groups, events, left, ends, ?_⟩
  cases halt with
  | complete residual => exact ⟨residual, hrest, hall, hhalts⟩
  | refused r =>
    rw [run_of_course (Cursor.attached_start _ _) hlone hrest hall hhalts] at h
    exact absurd h (Run.outcome_parsed_ne_ok r.ending_ne_complete p slots out err n)

/-- A parse whose course ends well, written out. -/
theorem parse_of_course {argv : List String} {groups : List Group} {events ends : List Event}
    {left residual : List String} (hvalid : p.table.defect? = none)
    (hlone : ¬ (Cursor.start p.mode argv).LoneHelp)
    (hrest : (Cursor.start p.mode argv).rest = groups.flatMap Group.tokens ++ left)
    (h : p.HandlesAll groups events) (hhalts : p.Halts left ends (.complete residual))
    (slots : Slots) (out err : Sink) :
    p.parse argv slots out err =
      let remaining :=
        (Cursor.start p.mode argv).kept ++ groups.flatMap Group.positionals ++ residual
      { outcome := .ok remaining.length, argv := remaining
        slots := slots.after (events ++ ends), out, err
        events := events ++ ends ++ [.finished remaining.length] } := by
  have hpositionals : ((Cursor.start p.mode argv).pass groups left).positionals =
      groups.flatMap Group.positionals := by
    rw [Cursor.pass, Cursor.positionals_start, List.nil_append]
  rw [parse_eq_parsed hvalid,
    run_of_course (Cursor.attached_start _ _) hlone hrest h hhalts, Halt.parsed_complete,
    hpositionals]
  rfl

end Parser

end CommandLine
