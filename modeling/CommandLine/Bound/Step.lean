import CommandLine.Bound
import CommandLine.Parser.Step
import CommandLine.Writing

/-!
# Handling one argument in place

`Work.step` handles an argument as `Parser.step` does, on a `Work` that changes as it goes: slots
are overwritten where they are, the cursor moves, and a fault is reported before the parse ends. A
step that ends the parse leaves everything that it has changed until then.
-/

namespace CommandLine

/-- A parse under way. -/
structure Work where
  parser : BoundParser
  cursor : Cursor
  /-- The writer of diagnostics. -/
  err : Sink
  events : List Event := []
deriving DecidableEq, Repr

/-- Why no more arguments are handled. -/
inductive Exit where
  /-- All that is to be parsed has been parsed. -/
  | complete
  | help
  /-- The fault has been reported. -/
  | fault (f : Fault)
  /-- The report of a fault could not be written. -/
  | unreported (reason : String)
deriving DecidableEq, Repr

/-- Something done to a parse under way, which may end it. -/
abbrev Handling := EStateM Exit Work

namespace Work

/-- Notes what happens. -/
def log (events : List Event) : Handling Unit :=
  modify fun w => { w with events := w.events ++ events }

def setCursor (cursor : Cursor) : Handling Unit := modify fun w => { w with cursor }

/-- Reports a fault, and ends the parse. -/
def fail {α : Type} (f : Fault) : Handling α := fun w =>
  match f.write w.err with
  | .ok _ err => .error (.fault f) { w with err }
  | .error reason err => .error (.unreported reason) { w with err }

/-- Takes the value of an option, from the first place that has one. -/
def takeValue (e : Entry) (form : Form) : Handling (Option String) := do
  let w ← get
  match w.cursor.attached with
  | some value => do
    setCursor (w.cursor.attach none)
    return some value
  | none =>
    if e.optional then return e.fallback
    else
      match w.cursor.takeFollowing? with
      | some (value, cursor) => do
        setCursor cursor
        return some value
      | none => fail (.requiresValue (e.describe form))

/-- Assigns the option `e` at `index`: takes its value, and overwrites its slot. -/
def assign (index : Nat) (e : Entry) (form : Form) : Handling Unit := do
  let w ← get
  if form = .negated ∧ w.cursor.attached.isSome then fail (.takesNoValue (e.describe form))
  else if form = .negated ∧ !e.negatable then fail (.notAvailable (e.describe form))
  else if form ≠ .short ∧ w.cursor.attached.isSome ∧ e.refusesAttached then
    fail (.takesNoValue (e.describe form))
  else do
    let given ← if form ≠ .negated ∧ e.takesValue then takeValue e form else pure none
    let value := given.map (e.stored w.parser.directory)
    log [.assigned ⟨index, e, form, value⟩]
    modify fun w => { w with parser := w.parser.overwrite index form value }

/-- Handles `given`, which stood after two dashes. -/
def long (given : List Char) : Handling Unit := do
  let w ← get
  let text := (splitAttached given).1
  let found := w.parser.options.lookup text
  log (found.events (String.ofList text))
  match found with
  | .unknown => fail (.unknownOption (String.ofList given))
  | .ambiguous hits => fail (.ambiguous (String.ofList given) (hits.map Hit.name))
  | .found hit => do
    setCursor (w.cursor.attach (splitAttached given).2)
    assign hit.index hit.entry hit.reading.form

/-- Handles short names one after the other. -/
def cluster (token : String) : List Char → Handling Unit
  | [] => pure ()
  | name :: packed => do
    let w ← get
    match BoundTable.findShort? name 0 w.parser.options with
    | none => if name = 'h' then throw .help else fail (Parser.unknownShort token name)
    | some (index, e) =>
      if e.takesValue then do
        let attached := if packed.isEmpty then none else some (String.ofList packed)
        setCursor (w.cursor.attach attached)
        assign index e .short
      else do
        assign index e .short
        cluster token packed

/-- Handles the argument `token` under the cursor. -/
def step (token : String) : Handling Unit := do
  let w ← get
  match token.toList with
  | '-' :: '-' :: given =>
    if given.isEmpty then do
      log [.terminated]
      setCursor w.cursor.advance
      throw .complete
    else if given = ['h', 'e', 'l', 'p'] then throw .help
    else long given
  | '-' :: name :: packed =>
    if w.cursor.isLone && name == 'h' && packed.isEmpty then throw .help
    else cluster token (name :: packed)
  | _ =>
    if w.parser.mode.stopAtPositional then do
      log [.stopped token]
      throw .complete
    else setCursor (w.cursor.collect token)

theorem get_eq (w : Work) : (get : Handling Work) w = .ok w w := rfl

theorem bind_of_ok {w w' : Work} {α β : Type} {x : Handling α} {f : α → Handling β} {a : α}
    (h : x w = .ok a w') : (x >>= f) w = f a w' := by
  simp [bind, EStateM.bind, h]

theorem bind_of_error {w w' : Work} {α β : Type} {x : Handling α} {f : α → Handling β}
    {exit : Exit} (h : x w = .error exit w') : (x >>= f) w = .error exit w' := by
  simp [bind, EStateM.bind, h]

section

variable {w : Work} {token : String}

theorem step_of_long {given : List Char} (h : token.toList = '-' :: '-' :: given) :
    step token w =
      (if given.isEmpty then do
        log [.terminated]
        setCursor w.cursor.advance
        throw .complete
      else if given = ['h', 'e', 'l', 'p'] then throw .help
      else long given) w := by
  rw [step, bind_of_ok (get_eq w)]
  simp only [h]

theorem step_of_cluster {name : Char} {packed : List Char} (hname : name ≠ '-')
    (h : token.toList = '-' :: name :: packed) :
    step token w =
      (if w.cursor.isLone && name == 'h' && packed.isEmpty then throw .help
      else cluster token (name :: packed)) w := by
  rw [step, bind_of_ok (get_eq w)]
  simp only [h]

theorem step_of_positional (h : ∀ name packed, token.toList ≠ '-' :: name :: packed) :
    step token w =
      (if w.parser.mode.stopAtPositional then do
        log [.stopped token]
        throw .complete
      else setCursor (w.cursor.collect token)) w := by
  rw [step, bind_of_ok (get_eq w)]
  refine congrFun ?_ w
  split
  · rename_i htoken
    exact absurd htoken (h _ _)
  · rename_i htoken
    exact absurd htoken (h _ _)
  · rfl

end

/-! ## What a step in place comes to -/

/-- `w'` has come from `w` by the `events`: their assignments have overwritten the slots, and
nothing is lost of the argument vector. -/
structure Follows (w : Work) (events : List Event) (w' : Work) : Prop where
  unbound : w'.parser.unbound = w.parser.unbound
  slots : w'.parser.slots = w.parser.slots.after events
  events : w'.events = w.events ++ events
  tokens : w'.cursor.tokens = w.cursor.tokens

/-- A handling in place from `w` comes to the same as a step that only says what is to be done. -/
inductive Mirrors (w : Work) : List Event × Step → EStateM.Result Exit Work Unit → Prop
  | next {events : List Event} {w' : Work} (h : w.Follows events w') (herr : w'.err = w.err) :
    Mirrors w (events, .next w'.cursor) (.ok () w')
  | complete {events : List Event} {w' : Work} (h : w.Follows events w') (herr : w'.err = w.err) :
    Mirrors w (events, .complete w'.cursor) (.error .complete w')
  | help {events : List Event} {w' : Work} (h : w.Follows events w') (herr : w'.err = w.err) :
    Mirrors w (events, .help) (.error .help w')
  | fault {events : List Event} {w' : Work} {f : Fault} (h : w.Follows events w')
    (hwrite : f.write w.err = .ok () w'.err) :
    Mirrors w (events, .fail f) (.error (.fault f) w')
  | unreported {events : List Event} {w' : Work} {f : Fault} {reason : String}
    (h : w.Follows events w') (hwrite : f.write w.err = .error reason w'.err) :
    Mirrors w (events, .fail f) (.error (.unreported reason) w')

variable {w w' : Work} {events more : List Event} {α β : Type}

theorem Follows.refl (w : Work) : w.Follows [] w :=
  ⟨rfl, rfl, (List.append_nil _).symm, rfl⟩

theorem follows_setCursor (w : Work) {c : Cursor} (h : c.tokens = w.cursor.tokens) :
    w.Follows [] { w with cursor := c } :=
  ⟨rfl, rfl, (List.append_nil _).symm, h⟩

/-- Noting what assigns nothing changes no slot. -/
theorem follows_log (w : Work) (h : events.filterMap Event.assignment? = []) :
    w.Follows events { w with events := w.events ++ events } where
  unbound := rfl
  slots := by rw [Slots.after, h, List.foldl_nil]
  events := rfl
  tokens := rfl

theorem Follows.trans {w'' : Work} (h : w.Follows events w') (h' : w'.Follows more w'') :
    w.Follows (events ++ more) w'' where
  unbound := h'.unbound.trans h.unbound
  slots := by rw [h'.slots, h.slots, Slots.after_append]
  events := by rw [h'.events, h.events, List.append_assoc]
  tokens := h'.tokens.trans h.tokens

/-- What is mirrored after some events is mirrored behind them. -/
theorem Mirrors.after {s : List Event × Step} {r : EStateM.Result Exit Work Unit}
    (h : w.Follows events w') (herr : w'.err = w.err) (hr : w'.Mirrors s r) :
    w.Mirrors (events ++ s.1, s.2) r := by
  cases hr with
  | next h' herr' => exact .next (h.trans h') (herr'.trans herr)
  | complete h' herr' => exact .complete (h.trans h') (herr'.trans herr)
  | help h' herr' => exact .help (h.trans h') (herr'.trans herr)
  | fault h' hwrite => exact .fault (h.trans h') (herr ▸ hwrite)
  | unreported h' hwrite => exact .unreported (h.trans h') (herr ▸ hwrite)

theorem mirrors_fail (w : Work) (f : Fault) : w.Mirrors ([], .fail f) (fail f w) := by
  unfold fail
  cases hwrite : f.write w.err with
  | ok _ err => exact .fault ⟨rfl, rfl, (List.append_nil _).symm, rfl⟩ hwrite
  | error reason err => exact .unreported ⟨rfl, rfl, (List.append_nil _).symm, rfl⟩ hwrite

theorem bind_of_fail {x : Handling α} {g : α → Handling β} {f : Fault} (h : x w = fail f w) :
    (x >>= g) w = fail f w := by
  unfold fail at h ⊢
  cases hwrite : f.write w.err with
  | ok _ err => exact bind_of_error (h.trans (by rw [hwrite]))
  | error reason err => exact bind_of_error (h.trans (by rw [hwrite]))

/-- A value is taken from the place that `Cursor.takeValue` says, or is missed. -/
theorem takeValue_eq (e : Entry) (form : Form) (w : Work) :
    takeValue e form w = match w.cursor.takeValue e form with
      | .ok (value, c) => .ok value { w with cursor := c }
      | .error f => fail f w := by
  rw [takeValue, bind_of_ok (get_eq w)]
  unfold Cursor.takeValue
  cases hattached : w.cursor.attached with
  | some value => rfl
  | none =>
    by_cases hoptional : e.optional = true
    · simp only [if_pos hoptional]
      rfl
    · simp only [if_neg hoptional]
      cases hfollowing : w.cursor.takeFollowing? with
      | some taken => rfl
      | none => rfl

theorem tokens_of_takeValue {c c' : Cursor} {e : Entry} {form : Form} {value : Option String}
    (h : c.takeValue e form = .ok (value, c')) : c'.tokens = c.tokens := by
  unfold Cursor.takeValue at h
  repeat' split at h
  all_goals cases h
  · rfl
  · rfl
  · rename_i hfollowing
    obtain ⟨rfl, -⟩ := Cursor.takeFollowing?_eq_some_iff.1 hfollowing
    exact Cursor.tokens_advance _

/-- The end of an assignment: its slot is overwritten. -/
theorem follows_overwrite {index : Nat} {e : Entry} {form : Form} {value : Option String}
    {c : Cursor} (hget : w.parser.unbound.table[index]? = some e)
    (htokens : c.tokens = w.cursor.tokens) :
    let assigned := [Event.assigned ⟨index, e, form, value⟩]
    w.Follows assigned
      { parser := w.parser.overwrite index form value, cursor := c, err := w.err,
        events := w.events ++ assigned } where
  unbound := BoundParser.unbound_overwrite ..
  slots := BoundTable.slots_overwrite hget form value
  events := rfl
  tokens := htokens

/-- An assignment in place does what `Parser.assigned` says. -/
theorem mirrors_assign {index : Nat} {e : Entry} (form : Form)
    (hget : w.parser.unbound.table[index]? = some e) :
    w.Mirrors (w.parser.unbound.assigned w.cursor index e form) (assign index e form w) := by
  rw [assign, bind_of_ok (get_eq w)]
  unfold Parser.assigned Cursor.assign
  by_cases hnegated : form = .negated ∧ w.cursor.attached.isSome
  · rw [if_pos hnegated, if_pos hnegated]
    exact w.mirrors_fail _
  rw [if_neg hnegated, if_neg hnegated]
  by_cases havailable : form = .negated ∧ !e.negatable
  · rw [if_pos havailable, if_pos havailable]
    exact w.mirrors_fail _
  rw [if_neg havailable, if_neg havailable]
  by_cases hrefuses : form ≠ .short ∧ w.cursor.attached.isSome ∧ e.refusesAttached
  · rw [if_pos hrefuses, if_pos hrefuses]
    exact w.mirrors_fail _
  rw [if_neg hrefuses, if_neg hrefuses]
  by_cases hvalue : form ≠ .negated ∧ e.takesValue
  · rw [if_pos hvalue, if_pos hvalue]
    have htaken := takeValue_eq e form w
    cases htake : w.cursor.takeValue e form with
    | ok taken =>
      obtain ⟨given, c⟩ := taken
      rw [htake] at htaken
      rw [bind_of_ok htaken]
      exact .next (follows_overwrite hget (tokens_of_takeValue htake)) rfl
    | error f =>
      rw [htake] at htaken
      rw [bind_of_fail htaken]
      exact w.mirrors_fail f
  · rw [if_neg hvalue, if_neg hvalue]
    exact .next (follows_overwrite hget rfl) rfl

/-- A value is attached to the option, and then it is assigned. -/
theorem mirrors_attach_assign {index : Nat} {e : Entry} (form : Form) (attached : Option String)
    (hget : w.parser.unbound.table[index]? = some e) :
    w.Mirrors (w.parser.unbound.assigned (w.cursor.attach attached) index e form)
      ((do setCursor (w.cursor.attach attached); assign index e form) w) := by
  let w' : Work := { w with cursor := w.cursor.attach attached }
  have hassign : w'.Mirrors (w.parser.unbound.assigned (w.cursor.attach attached) index e form)
      (assign index e form w') := mirrors_assign form hget
  have hset : w.Follows [] w' := w.follows_setCursor rfl
  exact hassign.after hset rfl

/-- A handling that goes on has come to the cursor that is said. -/
theorem Mirrors.exists_of_next {c : Cursor} {r : EStateM.Result Exit Work Unit}
    (h : w.Mirrors (events, .next c) r) :
    ∃ w', r = .ok () w' ∧ w'.cursor = c ∧ w.Follows events w' ∧ w'.err = w.err := by
  cases h with
  | next h herr => exact ⟨_, rfl, rfl, h, herr⟩

theorem snd_of_mirrors_ok {s : List Event × Step} (h : w.Mirrors s (.ok () w')) :
    s.2 = .next w'.cursor := by
  cases h
  rfl

/-- Behind a handling that ends the parse nothing is done. -/
theorem Mirrors.bind_of_stopped {x y : Handling Unit} {step : Step}
    (h : w.Mirrors (events, step) (x w)) (hstopped : ∀ c, step ≠ .next c) :
    (do x; y) w = x w := by
  cases hx : x w with
  | ok _ w' =>
    rw [hx] at h
    cases h with
    | next => exact absurd rfl (hstopped _)
  | error exit w' => exact bind_of_error hx

/-- A cluster in place does what `Parser.cluster` says. -/
theorem mirrors_cluster (token : String) (names : List Char) (w : Work) :
    w.Mirrors (w.parser.unbound.cluster token w.cursor names) (cluster token names w) := by
  induction names generalizing w with
  | nil => exact .next (.refl w) rfl
  | cons name packed ih =>
    rw [cluster, bind_of_ok (get_eq w)]
    unfold Parser.cluster
    have hfind : w.parser.unbound.table.findShort? name = _ :=
      w.parser.options.findShort?_entries name
    rw [hfind]
    cases hshort : BoundTable.findShort? name 0 w.parser.options with
    | none =>
      dsimp only
      by_cases hhelp : name = 'h'
      · rw [if_pos hhelp, if_pos hhelp]
        exact .help (.refl w) rfl
      · rw [if_neg hhelp, if_neg hhelp]
        exact w.mirrors_fail _
    | some found =>
      obtain ⟨index, e⟩ := found
      have hget := (Table.getElem?_of_findShort? (hfind.trans hshort)).1
      dsimp only
      by_cases hvalue : e.takesValue = true
      · rw [if_pos hvalue, if_pos hvalue]
        exact mirrors_attach_assign .short _ hget
      · rw [if_neg hvalue, if_neg hvalue]
        have hassign := mirrors_assign .short hget
        cases hassigned : w.parser.unbound.assigned w.cursor index e .short with
        | mk events step =>
          rw [hassigned] at hassign
          cases step with
          | next c =>
            obtain ⟨w', hw', rfl, hfollows, herr⟩ := hassign.exists_of_next
            rw [bind_of_ok hw']
            have hmore := ih w'
            rw [hfollows.unbound] at hmore
            exact hmore.after hfollows herr
          | _ =>
            rw [hassign.bind_of_stopped (by simp)]
            exact hassign

/-- A long option in place does what `Parser.long` says. -/
theorem mirrors_long (given : List Char) (w : Work) :
    w.Mirrors (w.parser.unbound.long w.cursor given) (long given w) := by
  have hlookup : w.parser.unbound.table.lookup (splitAttached given).1 =
      w.parser.options.lookup (splitAttached given).1 := w.parser.options.lookup_entries _
  rw [long, bind_of_ok (get_eq w)]
  unfold Parser.long Table.resolve
  dsimp only
  rw [hlookup]
  let text := String.ofList (splitAttached given).1
  generalize hfound : w.parser.options.lookup (splitAttached given).1 = found
  let w' : Work := { w with events := w.events ++ found.events text }
  have hlog : w.Follows (found.events text) w' := w.follows_log (found.assignments_events text)
  cases found with
  | unknown => exact (w'.mirrors_fail _).after hlog rfl
  | ambiguous hits => exact (w'.mirrors_fail _).after hlog rfl
  | found hit =>
    have hget := (Table.mem_hits_iff.1 (Table.mem_hits_of_lookup (hlookup.trans hfound))).1
    have hassign : w'.Mirrors _ _ :=
      mirrors_attach_assign (w := w') hit.reading.form (splitAttached given).2 hget
    exact hassign.after hlog rfl

/-- A step in place does what `Parser.step` says. -/
theorem mirrors_step (token : String) (w : Work) :
    w.Mirrors (w.parser.unbound.step w.cursor token) (step token w) := by
  rcases Parser.shape_cases token with ⟨given, htoken⟩ | ⟨name, packed, hname, htoken⟩ | hshape
  · rw [Parser.step_of_long htoken, step_of_long htoken]
    by_cases hterminator : given.isEmpty = true
    · let w' : Work := { w with events := w.events ++ [.terminated] }
      have hlog : w.Follows [.terminated] w' := w.follows_log rfl
      rw [if_pos hterminator, if_pos hterminator]
      exact .complete (hlog.trans (w'.follows_setCursor w.cursor.tokens_advance)) rfl
    rw [if_neg hterminator, if_neg hterminator]
    by_cases hhelp : given = ['h', 'e', 'l', 'p']
    · rw [if_pos hhelp, if_pos hhelp]
      exact .help (.refl w) rfl
    · rw [if_neg hhelp, if_neg hhelp]
      exact mirrors_long given w
  · rw [Parser.step_of_cluster hname htoken, step_of_cluster hname htoken]
    by_cases hlone : (w.cursor.isLone && name == 'h' && packed.isEmpty) = true
    · rw [if_pos hlone, if_pos hlone]
      exact .help (.refl w) rfl
    · rw [if_neg hlone, if_neg hlone]
      exact mirrors_cluster token _ w
  · rw [Parser.step_of_positional hshape, step_of_positional hshape]
    have hmode : w.parser.unbound.mode = w.parser.mode := rfl
    rw [hmode]
    by_cases hstop : w.parser.mode.stopAtPositional = true
    · rw [if_pos hstop, if_pos hstop]
      exact .complete (w.follows_log rfl) rfl
    · rw [if_neg hstop, if_neg hstop]
      exact .next (w.follows_setCursor (w.cursor.tokens_collect token)) rfl

end Work

end CommandLine
