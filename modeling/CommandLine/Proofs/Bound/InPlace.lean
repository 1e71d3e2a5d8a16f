import CommandLine.Bound.Parse
import CommandLine.Proofs.Parser.Following
import CommandLine.Proofs.Table.Declared

/-!
# Parsing in place does what parsing says

`Parser.parse` works out what is to be assigned and gives the slots their contents afterwards, while
`BoundParser.parse` overwrites them on the way. Both leave the same behind, whatever becomes of the
parse, and the parser that is given back differs from the one before at most in what its slots hold
(`BoundParser.parse_inPlace`).
-/

namespace CommandLine

namespace Work

/-- The loop in place has done what the run says, and has stopped for the same reason. A fault has
been reported by then, or could not be. -/
inductive Ends (w : Work) : Run → Exit × Work → Prop
  | complete {events : List Event} {w' : Work} (h : w.Follows events w') (herr : w'.err = w.err) :
    Ends w (w'.cursor.finish.after events) (.complete, w')
  | help {events : List Event} {w' : Work} (h : w.Follows events w') (herr : w'.err = w.err) :
    Ends w ⟨events, w'.cursor.tokens, .help⟩ (.help, w')
  | fault {events : List Event} {w' : Work} {f : Fault} (h : w.Follows events w')
    (hwrite : f.write w.err = .ok () w'.err) :
    Ends w ⟨events, w'.cursor.tokens, .fault f⟩ (.fault f, w')
  | unreported {events : List Event} {w' : Work} {f : Fault} {reason : String}
    (h : w.Follows events w') (hwrite : f.write w.err = .error reason w'.err) :
    Ends w ⟨events, w'.cursor.tokens, .fault f⟩ (.unreported reason, w')

variable {w w' : Work} {events : List Event}

/-- What a loop has done after some events it has done behind them. -/
theorem Ends.after {run : Run} {r : Exit × Work} (h : w.Follows events w')
    (herr : w'.err = w.err) (hr : w'.Ends run r) : w.Ends (run.after events) r := by
  cases hr with
  | complete h' herr' =>
    have hall := Ends.complete (h.trans h') (herr'.trans herr)
    simpa only [Run.after, List.append_assoc] using hall
  | help h' herr' => exact .help (h.trans h') (herr'.trans herr)
  | fault h' hwrite => exact .fault (h.trans h') (herr ▸ hwrite)
  | unreported h' hwrite => exact .unreported (h.trans h') (herr ▸ hwrite)

theorem Follows.advance (h : w.Follows events w') :
    w.Follows events { w' with cursor := w'.cursor.advance } :=
  ⟨h.unbound, h.slots, h.events, w'.cursor.tokens_advance.trans h.tokens⟩

theorem ends_run (w : Work) : w.Ends (w.parser.unbound.run w.cursor) w.run := by
  fun_induction run w with
  | case1 w hrest =>
    rw [Parser.run_of_rest_nil hrest]
    exact .complete (.refl w) rfl
  | case2 w token more hrest _ w' hstep ih =>
    have hmirrors := mirrors_step token w
    rw [hstep] at hmirrors
    rw [Parser.run_of_rest_cons hrest]
    generalize w.parser.unbound.step w.cursor token = s at hmirrors ⊢
    cases hmirrors with
    | next h herr =>
      rw [h.unbound] at ih
      exact ih.after (h.advance) herr
  | case3 w token more hrest exit w' hstep =>
    have hmirrors := mirrors_step token w
    rw [hstep] at hmirrors
    rw [Parser.run_of_rest_cons hrest]
    generalize w.parser.unbound.step w.cursor token = s at hmirrors ⊢
    cases hmirrors with
    | complete h herr => exact .complete h herr
    | help h herr => exact h.tokens ▸ .help h herr
    | fault h hwrite => exact h.tokens ▸ .fault h hwrite
    | unreported h hwrite => exact h.tokens ▸ .unreported h hwrite

end Work

/-- What a parse in place leaves behind, with the contents of the slots in the place of the
parser. -/
def BoundParsed.parsed (r : BoundParsed) : Parsed where
  outcome := r.outcome
  argv := r.argv
  slots := r.parser.slots
  out := r.out
  err := r.err
  events := r.events

theorem BoundParser.writeUsage_unbound (p : BoundParser) : p.unbound.writeUsage = p.writeUsage :=
  p.options.writeUsage_entries p.calls p.layout

namespace Writing

variable {w w' : Writing} {s s' : Sink}

/-- Behind what has been written the rest decides. -/
theorem settle_of_ok (h : w s = .ok () s') (w' : Writing) (outcome : Outcome) :
    settle (do w; w') s outcome = w'.settle s' outcome := by
  simp [settle, bind, EStateM.bind, h]

/-- Behind what could not be written nothing more is. -/
theorem settle_of_error {reason : String} (h : w s = .error reason s') (w' : Writing)
    (outcome : Outcome) : settle (do w; w') s outcome = (.fatal (.io reason), s') := by
  simp [settle, bind, EStateM.bind, h]

end Writing

/-- What a fault and the usage text behind it come to. -/
theorem Parser.settle_fault (p : Parser) (f : Fault) (s : Sink) (outcome : Outcome) :
    Writing.settle (do f.write; p.writeUsage) s outcome =
      (s.settle (f.report ++ p.usage) outcome, s.write (f.report ++ p.usage)) := by
  rw [f.write_eq, p.writeUsage_eq, Writing.put_put, Writing.settle_put]

theorem Work.Follows.events_eq {w w' : Work} {events : List Event} (h : w.Follows events w')
    (hfirst : w.events = []) : w'.events = events := by
  rw [h.events, hfirst, List.nil_append]

/-- A parse that ends in place leaves behind what the run leaves. -/
theorem Work.Ends.finish {w : Work} {run : Run} {r : Exit × Work} (h : w.Ends run r)
    (hfirst : w.events = []) (out : Sink) :
    (r.2.finish out r.1).parsed = run.parsed w.parser.unbound w.parser.slots out w.err ∧
      (r.2.finish out r.1).parser.unbound = w.parser.unbound := by
  cases h with
  | @complete events w' h herr =>
    have hslots : w'.parser.slots =
        w.parser.slots.after (events ++ [.finished w'.cursor.residual.length]) := by
      rw [Slots.after_append, h.slots]
      rfl
    refine ⟨?_, h.unbound⟩
    dsimp only [Work.finish, BoundParsed.parsed, Run.parsed, Run.after, Cursor.finish]
    rw [h.events_eq hfirst, hslots, herr]
  | @help events w' h herr =>
    refine ⟨?_, h.unbound⟩
    dsimp only [Work.finish, BoundParsed.parsed, Run.parsed]
    rw [h.events_eq hfirst, h.slots, herr, ← w'.parser.writeUsage_unbound, h.unbound,
      Parser.writeUsage_eq, Writing.settle_put]
  | @fault events w' f h hwrite =>
    have hsettle := w.parser.unbound.settle_fault f w.err (.fatal f)
    rw [Writing.settle_of_ok hwrite] at hsettle
    refine ⟨?_, h.unbound⟩
    dsimp only [Work.finish, BoundParsed.parsed, Run.parsed]
    rw [h.events_eq hfirst, h.slots, ← w'.parser.writeUsage_unbound, h.unbound, hsettle]
  | @unreported events w' f reason h hwrite =>
    have hsettle := w.parser.unbound.settle_fault f w.err (.fatal f)
    rw [Writing.settle_of_error hwrite, Prod.mk.injEq] at hsettle
    refine ⟨?_, h.unbound⟩
    dsimp only [Work.finish, BoundParsed.parsed, Run.parsed]
    rw [h.events_eq hfirst, h.slots, ← hsettle.1, ← hsettle.2]

namespace BoundParser

/-- A parse in place leaves behind what a parse says. -/
theorem parse_inPlace (p : BoundParser) (argv : List String) (out err : Sink) :
    (p.parse argv out err).parsed = p.unbound.parse argv p.slots out err ∧
      (p.parse argv out err).parser.unbound = p.unbound := by
  have hcheck : p.options.check = p.unbound.table.check := p.options.check_entries.symm
  rw [Table.check_eq] at hcheck
  cases hdefect : p.unbound.table.defect? with
  | some defect =>
    rw [hdefect, Option.elim_some] at hcheck
    rw [Parser.parse_of_defect hdefect, parse, hcheck]
    dsimp only
    rw [Fault.write_eq, Writing.settle_put]
    exact ⟨rfl, rfl⟩
  | none =>
    rw [hdefect, Option.elim_none] at hcheck
    rw [Parser.parse_eq_parsed hdefect, parse, hcheck]
    let w : Work := { parser := p, cursor := Cursor.start p.mode argv, err }
    exact w.ends_run.finish rfl out

end BoundParser

end CommandLine
