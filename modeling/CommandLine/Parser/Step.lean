import CommandLine.Event
import CommandLine.Parser.Basic

/-!
# Handling one argument

`Parser.step` looks at the argument under the cursor and says how the parse goes on. An
argument that starts with one dash is a cluster of short names (`Parser.cluster`), one that
starts with two is a long name (`Parser.long`), and everything else is positional.
-/

namespace CommandLine

/-- How the parse goes on after an argument. -/
inductive Step where
  /-- The argument has been handled. The cursor stands on it, or on the value taken for it. -/
  | next (c : Cursor)
  /-- The parse is over, and what the cursor has not passed is left alone. -/
  | complete (c : Cursor)
  | help
  | fail (fault : Fault)
deriving DecidableEq, Repr

namespace Parser

/-- Assigns the option `e` at `index`, and ends the step. -/
def assigned (p : Parser) (c : Cursor) (index : Nat) (e : Entry) (form : Form) :
    List Event × Step :=
  match c.assign p.directory e form with
  | .ok (value, c') => ([.assigned ⟨index, e, form, value⟩], .next c')
  | .error fault => ([], .fail fault)

/-- Handles `given`, which stood after two dashes. -/
def long (p : Parser) (c : Cursor) (given : List Char) : List Event × Step :=
  let r := p.table.resolve given
  let (events, step) := match r.found with
    | .unknown => ([], .fail (.unknownOption (String.ofList given)))
    | .ambiguous hits => ([], .fail (.ambiguous (String.ofList given) (hits.map Hit.name)))
    | .found hit => p.assigned (c.attach r.attached) hit.index hit.entry hit.reading.form
  (r.found.events (String.ofList r.text) ++ events, step)

/-- The fault of a short name that is not declared, in the argument `token`. -/
def unknownShort (token : String) (name : Char) : Fault :=
  if name.toNat < 128 then .unknownSwitch name else .unknownNonAscii token

/-- Handles short names one after the other. One that takes a value has what follows it in the
argument `token` attached, if anything does. An `h` that is not declared asks for help. -/
def cluster (p : Parser) (token : String) (c : Cursor) : List Char → List Event × Step
  | [] => ([], .next c)
  | name :: packed =>
    match p.table.findShort? name with
    | none => ([], if name = 'h' then .help else .fail (unknownShort token name))
    | some (index, e) =>
      if e.takesValue then
        let attached := if packed.isEmpty then none else some (String.ofList packed)
        p.assigned (c.attach attached) index e .short
      else
        match p.assigned c index e .short with
        | (events, .next c') =>
          let (more, step) := p.cluster token c' packed
          (events ++ more, step)
        | stopped => stopped

/-- Handles the argument `token` under the cursor. A lone `-h` asks for help even where `h` is
declared. -/
def step (p : Parser) (c : Cursor) (token : String) : List Event × Step :=
  match token.toList with
  | '-' :: '-' :: given =>
    if given.isEmpty then ([.terminated], .complete c.advance)
    else if given = ['h', 'e', 'l', 'p'] then ([], .help)
    else p.long c given
  | '-' :: name :: packed =>
    if c.isLone && name == 'h' && packed.isEmpty then ([], .help)
    else p.cluster token c (name :: packed)
  | _ =>
    if p.mode.stopAtPositional then ([.stopped token], .complete c)
    else ([], .next (c.collect token))

/-- The three shapes of an argument. -/
theorem shape_cases (token : String) :
    (∃ given, token.toList = '-' :: '-' :: given) ∨
      (∃ name packed, name ≠ '-' ∧ token.toList = '-' :: name :: packed) ∨
      (∀ name packed, token.toList ≠ '-' :: name :: packed) := by
  by_cases h : ∃ name packed, token.toList = '-' :: name :: packed
  · obtain ⟨name, packed, htoken⟩ := h
    by_cases hname : name = '-'
    · exact .inl ⟨packed, by rw [htoken, hname]⟩
    · exact .inr (.inl ⟨name, packed, hname, htoken⟩)
  · exact .inr (.inr fun name packed htoken => h ⟨name, packed, htoken⟩)

theorem step_of_long {p : Parser} {c : Cursor} {token : String} {given : List Char}
    (h : token.toList = '-' :: '-' :: given) :
    p.step c token =
      if given.isEmpty then ([.terminated], .complete c.advance)
      else if given = ['h', 'e', 'l', 'p'] then ([], .help)
      else p.long c given := by
  simp only [step, h]

theorem step_of_cluster {p : Parser} {c : Cursor} {token : String} {name : Char}
    {packed : List Char} (hname : name ≠ '-') (h : token.toList = '-' :: name :: packed) :
    p.step c token =
      if c.isLone && name == 'h' && packed.isEmpty then ([], .help)
      else p.cluster token c (name :: packed) := by
  simp only [step, h]

theorem step_of_positional {p : Parser} {c : Cursor} {token : String}
    (h : ∀ name packed, token.toList ≠ '-' :: name :: packed) :
    p.step c token =
      if p.mode.stopAtPositional then ([.stopped token], .complete c)
      else ([], .next (c.collect token)) := by
  unfold step
  split
  · rename_i htoken
    exact absurd htoken (h _ _)
  · rename_i htoken
    exact absurd htoken (h _ _)
  · rfl

theorem onward_of_assigned {p : Parser} {c c' : Cursor} {index : Nat} {e : Entry} {form : Form}
    (hrest : c.rest ≠ []) (h : (p.assigned c index e form).2 = .next c') :
    Cursor.Onward c c' := by
  unfold assigned at h
  split at h
  · rename_i hassign
    cases h
    exact Cursor.onward_of_assign hrest hassign
  · cases h

theorem onward_of_long {p : Parser} {c c' : Cursor} {given : List Char}
    (hrest : c.rest ≠ []) (h : (p.long c given).2 = .next c') : Cursor.Onward c c' := by
  unfold long at h
  dsimp only at h
  split at h
  · cases h
  · cases h
  · exact Cursor.onward_attach_iff.1 (onward_of_assigned (by simpa using hrest) h)

theorem onward_of_cluster {p : Parser} {token : String} {c c' : Cursor} {names : List Char}
    (hrest : c.rest ≠ []) (h : (p.cluster token c names).2 = .next c') :
    Cursor.Onward c c' := by
  induction names generalizing c with
  | nil =>
    cases h
    exact Cursor.Onward.refl hrest
  | cons name packed ih =>
    unfold cluster at h
    split at h
    · dsimp only at h
      split at h <;> cases h
    · split at h
      · exact Cursor.onward_attach_iff.1 (onward_of_assigned (by simpa using hrest) h)
      · split at h
        · rename_i hassigned
          have hon := onward_of_assigned hrest (congrArg Prod.snd hassigned)
          exact hon.trans (ih hon.1 h)
        · exact onward_of_assigned hrest h

/-- A step goes on at the argument that it handled or at the value taken for it, and never
back. -/
theorem onward_of_step {p : Parser} {c c' : Cursor} {token : String}
    (hrest : c.rest ≠ []) (h : (p.step c token).2 = .next c') : Cursor.Onward c c' := by
  unfold step at h
  split at h
  · split at h
    · cases h
    · split at h
      · cases h
      · exact onward_of_long hrest h
  · split at h
    · cases h
    · exact onward_of_cluster hrest h
  · split at h
    · cases h
    · cases h
      exact ⟨hrest, Nat.le_refl _⟩

end Parser

end CommandLine
