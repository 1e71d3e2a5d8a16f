import CommandLine.Proofs.Parser.Following

/-!
# Parsing a vector in two parts

A parse that handles all of one vector may go on with another: the two together are parsed as the
second is from the slots that the first left (`Parser.parse_append`). Nothing but the first
argument that a parser keeps, and a lone `-h`, could tell where the second starts.
-/

namespace CommandLine

/-- The same parser, but for the first argument that it may keep. -/
def Parser.keepingNone (p : Parser) : Parser :=
  { p with mode := { p.mode with keepFirst := false } }

/-- Whether the event ends a parse while there may be arguments left. -/
def Event.isStop : Event → Bool
  | stopped _ => true
  | terminated => true
  | _ => false

/-- Every argument has been handled: neither a terminator nor a positional argument has ended the
parse. -/
def Parsed.HandledAll (r : Parsed) : Prop := ∀ e ∈ r.events, e.isStop = false

instance (r : Parsed) : Decidable r.HandledAll :=
  inferInstanceAs (Decidable (∀ e ∈ r.events, e.isStop = false))

/-- The outcome when so many other arguments remain as well. -/
def Outcome.plus (earlier : Nat) : Outcome → Outcome
  | ok count => ok (earlier + count)
  | help => help
  | fatal fault => fatal fault

theorem Outcome.plus_of_ne_ok {outcome : Outcome} (h : ∀ n, outcome ≠ .ok n) (earlier : Nat) :
    outcome.plus earlier = outcome := by
  cases outcome with
  | ok n => exact absurd rfl (h n)
  | help => rfl
  | fatal fault => rfl

/-- `whole` is what `tail` is, but for the `count` arguments `front` that remain before its own. -/
structure Parsed.GoesOnAs (whole tail : Parsed) (count : Nat) (front : List String) : Prop where
  outcome : whole.outcome = tail.outcome.plus count
  argv : ∀ m, tail.outcome = .ok m → whole.argv = front ++ tail.argv
  slots : whole.slots = tail.slots
  out : whole.out = tail.out
  err : whole.err = tail.err

namespace Parser

variable {p : Parser}

/-! ## The first argument matters only at the start -/

theorem cluster_keepingNone (p : Parser) (token : String) (c : Cursor) (names : List Char) :
    p.keepingNone.cluster token c names = p.cluster token c names := by
  induction names generalizing c with
  | nil => rfl
  | cons name packed ih =>
    unfold cluster
    simp only [ih]
    rfl

theorem step_keepingNone (p : Parser) (c : Cursor) (token : String) :
    p.keepingNone.step c token = p.step c token := by
  unfold step
  simp only [cluster_keepingNone]
  rfl

theorem run_keepingNone (p : Parser) (c : Cursor) : p.keepingNone.run c = p.run c := by
  -- by induction on the number of arguments before the cursor, which every step lowers
  induction hn : c.rest.length using Nat.strongRecOn generalizing c with
  | _ n ih =>
    cases hrest : c.rest with
    | nil => rw [run_of_rest_nil hrest, run_of_rest_nil hrest]
    | cons token more =>
      rw [run_of_rest_cons hrest, run_of_rest_cons hrest, step_keepingNone]
      cases hstep : (p.step c token).2 with
      | next c' =>
        have hne : c.rest ≠ [] := by simp [hrest]
        have honward : Cursor.Onward c c' := onward_of_step hne hstep
        have hlt : c'.advance.rest.length < n := by
          have hadvance := Cursor.length_rest_advance_lt honward.1
          have hle := honward.2
          omega
        dsimp only
        rw [ih _ hlt c'.advance rfl]
      | complete c' => rfl
      | help => rfl
      | fail f => rfl

/-! ## Going on after the first part -/

/-- A parse in which every argument was handled has come to the end of the vector. -/
theorem Halts.eq_nil {left residual : List String} {ends : List Event}
    (h : p.Halts left ends (.complete residual)) (hends : ∀ e ∈ ends, e.isStop = false) :
    left = [] ∧ ends = [] ∧ residual = [] := by
  cases h with
  | exhausted => exact ⟨rfl, rfl, rfl⟩
  | terminated hword => simp [Event.isStop] at hends
  | stopped hstops hword => simp [Event.isStop] at hends

/-- Two cursors come to the same end, but for what they have collected. -/
theorem goesOnAs_run (p : Parser) (halt : Halt) {c d : Cursor} {front : List String}
    (hfront : c.kept ++ c.positionals = front ++ (d.kept ++ d.positionals))
    (events ends : List Event) (slots : Slots) (out err : Sink) :
    Parsed.GoesOnAs ((halt.run c (events ++ ends)).parsed p slots out err)
      ((halt.run d ends).parsed p.keepingNone (slots.after events) out err) front.length front := by
  have hslots : slots.after (events ++ ends) = (slots.after events).after ends :=
    Slots.after_append slots events ends
  cases halt with
  | complete residual =>
    have hargv : c.kept ++ c.positionals ++ residual =
        front ++ (d.kept ++ d.positionals ++ residual) := by
      rw [hfront, List.append_assoc]
    rw [Halt.parsed_complete, Halt.parsed_complete, hargv]
    refine ⟨?_, ?_, hslots, rfl, rfl⟩
    · show Outcome.ok _ = Outcome.ok _
      rw [List.length_append]
    · intro m hm
      rfl
  -- a parse that does not go well leaves nothing to be put in front
  | refused r =>
    have hrefused : ∀ m, ((Halt.run d ends (.refused r)).parsed p.keepingNone
        (slots.after events) out err).outcome ≠ .ok m := by
      intro m
      exact Run.outcome_parsed_ne_ok r.ending_ne_complete _ _ _ _ m
    refine ⟨?_, ?_, ?_, ?_, ?_⟩
    · rw [Outcome.plus_of_ne_ok hrefused]
      cases r <;> rfl
    · intro m hm
      exact absurd hm (hrefused m)
    · cases r <;> exact hslots
    · cases r <;> rfl
    · cases r <;> rfl

/-- The second part does not stand alone under the cursor: it is not a lone `-h`, and the first
part was not one either. -/
theorem not_loneHelp_append {mode : Mode} {first second : List String}
    (hkeeps : mode.keepFirst = true → first ≠ []) (hlone : ¬ (Cursor.start mode first).LoneHelp)
    (hsecond : second ≠ ["-h"]) : ¬ (Cursor.start mode (first ++ second)).LoneHelp := by
  intro h
  have hrest : (Cursor.start mode first).rest ++ second = ["-h"] := by
    have hboth := h.2
    rwa [Cursor.start_append_of_keeps hkeeps] at hboth
  rcases List.append_eq_singleton_iff.1 hrest with ⟨_, hlast⟩ | ⟨hfront, _⟩
  · exact hsecond hlast
  · exact hlone ⟨Cursor.handled_start mode first, hfront⟩

/-- A parse of two vectors is one of the second from the slots that the first has left, if the
first was handled to its end and the second is more than a call for help. -/
theorem parse_append {first second : List String} {slots : Slots} {out err : Sink} {n : Nat}
    (hfirst : first ≠ []) (hok : (p.parse first slots out err).outcome = .ok n)
    (hall : (p.parse first slots out err).HandledAll) (hsecond : second ≠ ["-h"]) :
    (p.parse (first ++ second) slots out err).GoesOnAs
      (p.keepingNone.parse second (p.parse first slots out err).slots out err)
      n (p.parse first slots out err).argv := by
  obtain ⟨hvalid, hlone, groups, events, left, ends, residual, hrest, hgroups, hhalts⟩ :=
    course_of_ok hok
  have hhead := parse_of_course hvalid hlone hrest hgroups hhalts slots out err
  -- no argument of the first part is left over
  obtain ⟨rfl, rfl, rfl⟩ : left = [] ∧ ends = [] ∧ residual = [] := by
    apply hhalts.eq_nil
    intro e he
    have hmem : e ∈ (p.parse first slots out err).events := by
      rw [hhead]
      exact List.mem_append_left _ (List.mem_append_right events he)
    exact hall e hmem
  obtain ⟨groups', events', left', ends', halt, hsplit, hgroups', hhalts'⟩ :=
    p.exists_course second
  -- the whole takes the course of the first part, and then that of the second
  have hwhole := parse_eq_parsed hvalid (first ++ second) slots out err
  have hrest' : (Cursor.start p.mode (first ++ second)).rest =
      (groups ++ groups').flatMap Group.tokens ++ left' := by
    rw [Cursor.start_append p.mode hfirst, List.flatMap_append, List.append_assoc, ← hsplit]
    show (Cursor.start p.mode first).rest ++ second = _
    rw [hrest, List.append_nil]
  have hboth := not_loneHelp_append (fun _ => hfirst) hlone hsecond
  rw [run_of_course (Cursor.attached_start _ _) hboth hrest' (hgroups.append hgroups') hhalts']
    at hwhole
  -- alone the second part takes the same course
  have htail := parse_eq_parsed (p := p.keepingNone) hvalid second (slots.after events) out err
  have hstart : Cursor.start p.keepingNone.mode second = { rest := second } := by
    simp [Cursor.start, keepingNone]
  have hlone' : ¬ Cursor.LoneHelp { rest := second } := by
    intro h
    exact hsecond h.2
  rw [hstart, run_keepingNone,
    run_of_course (c := { rest := second }) rfl hlone' hsplit hgroups' hhalts'] at htail
  have hslots : (p.parse first slots out err).slots = slots.after events := by
    rw [hhead]
    show slots.after (events ++ []) = _
    rw [List.append_nil]
  have hn : n = (p.parse first slots out err).argv.length := by
    rw [hhead] at hok ⊢
    exact (Outcome.ok.inj hok).symm
  have hkept : (Cursor.start p.mode (first ++ second)).kept = (Cursor.start p.mode first).kept := by
    rw [Cursor.start_append p.mode hfirst]
  rw [hn, hslots, htail, hwhole, List.append_assoc events]
  apply goesOnAs_run
  rw [hhead]
  simp [Cursor.pass, Cursor.positionals_start, hkept]

/-- A parser with a flag and an option with a value, for the arguments of a program. -/
def recorder : Parser :=
  { table := [{ kind := .flag, long := "verbose", short := some 'v' },
      { kind := .text, long := "output", short := some 'o' }]
    mode := { keepFirst := true } }

/-- The program's name, a flag and a positional argument come before the second part. -/
theorem parse_append_behind_program :
    (recorder.parse ["record", "-v", "take", "-o", "file", "--", "-v"] [.truth false, .text none]
        {} {}).GoesOnAs
      (recorder.keepingNone.parse ["-o", "file", "--", "-v"] [.truth true, .text none] {} {})
      2 ["record", "take"] := by
  have hfirst : ["record", "-v", "take"] ≠ [] := by decide
  have hsecond : ["-o", "file", "--", "-v"] ≠ ["-h"] := by decide
  have hparse : recorder.parse ["record", "-v", "take"] [.truth false, .text none] {} {} =
      { outcome := .ok 2, argv := ["record", "take"], slots := [.truth true, .text none]
        out := {}, err := {}
        events := [.assigned ⟨0, { kind := .flag, long := "verbose", short := some 'v' }, .short,
          none⟩, .finished 2] } := by decide +kernel
  have h := parse_append hfirst (congrArg Parsed.outcome hparse) (by rw [hparse]; decide) hsecond
  rw [hparse] at h
  exact h

end Parser

end CommandLine
