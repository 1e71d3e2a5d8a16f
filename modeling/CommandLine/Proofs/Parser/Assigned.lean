import CommandLine.Proofs.Parser.Course

/-!
# What the arguments assign

The assignments of a group, read off its arguments and the table alone (`Group.assignments`). The
events of handling the group hold these and no others, in the same order
(`Parser.HandlesAll.assignments`), so that the slots after a run are known from its groups.
-/

namespace CommandLine

/-! ## What slots hold -/

namespace Entry

/-- What the slot of an option holds when it has been given, with this value if it takes one. -/
def given (e : Entry) (value : Option String) : Value :=
  match e.kind with
  | .heading => .nothing
  | .switch onValue => .number onValue
  | .flag => .truth true
  | .text | .path => .text value

/-- What the slot of an option holds when it has been negated. -/
def cleared (e : Entry) : Value :=
  match e.kind with
  | .heading => .nothing
  | .switch _ => .number 0
  | .flag => .truth false
  | .text | .path => .text none

end Entry

theorem Assignment.content_of_ne_negated {a : Assignment} (h : a.form ≠ .negated) :
    a.content = a.entry.given a.value := by
  unfold content Entry.given
  cases a.entry.kind <;> simp [h]

theorem Assignment.content_of_negated {a : Assignment} (h : a.form = .negated)
    (hvalue : a.value = none) : a.content = a.entry.cleared := by
  unfold content Entry.cleared
  cases a.entry.kind <;> simp [h, hvalue]

/-- A slot that no assignment names keeps its content. -/
theorem Slots.getElem?_foldl_apply {assignments : List Assignment} {j : Nat}
    (h : ∀ a ∈ assignments, a.index ≠ j) (slots : Slots) :
    (assignments.foldl Assignment.apply slots)[j]? = slots[j]? := by
  induction assignments generalizing slots with
  | nil => rfl
  | cons a more ih =>
    have hmore := ih (fun b hb => h b (List.mem_cons_of_mem a hb)) (Assignment.apply slots a)
    rw [List.foldl_cons, hmore, Assignment.apply, List.getElem?_set_ne (h a List.mem_cons_self)]

/-- A slot holds what the last assignment to it leaves. -/
theorem Slots.getElem?_foldl_apply_of_last {before after : List Assignment} {a : Assignment}
    (hlast : ∀ b ∈ after, b.index ≠ a.index) {slots : Slots} (hslot : a.index < slots.length) :
    ((before ++ a :: after).foldl Assignment.apply slots)[a.index]? = some a.content := by
  have hslot' : a.index < (before.foldl Assignment.apply slots).length := by
    rwa [length_foldl_apply]
  rw [List.foldl_append, List.foldl_cons, getElem?_foldl_apply hlast, Assignment.apply,
    List.getElem?_set_self hslot']

/-! ## The assignments of a group -/

/-- What a mentioned option stores, if `following` is the value taken from the next argument. -/
def Mention.stored (m : Mention) (directory following : Option String) : Option String :=
  if m.form ≠ .negated ∧ m.entry.takesValue = true then
    (m.attached.or (if m.entry.optional then m.entry.fallback else following)).map
      (m.entry.stored directory)
  else none

/-- What the arguments of a group assign, one option after the other. -/
def Group.assignments (p : Parser) : Group → List Assignment
  | positional _ => []
  | option token following =>
    match p.table.word token with
    | .options phrase =>
      phrase.mentions.map fun m => m.assignment (m.stored p.directory following)
    | _ => []

/-- An option that does not want the next argument stores the same whatever that is. -/
theorem Mention.stored_of_value? {m : Mention} {directory stored : Option String}
    (hwants : ¬ m.WantsNext) (h : m.value? directory = .ok stored) (following : Option String) :
    m.stored directory following = stored := by
  unfold Mention.value? Cursor.assign at h
  by_cases hvalue : m.form ≠ .negated ∧ m.entry.takesValue = true
  · rw [Mention.stored, if_pos hvalue]
    cases hattached : m.attached with
    | some value =>
      rw [if_neg (by simp [hvalue.1]), if_neg (by simp [hvalue.1])] at h
      split at h
      · cases h
      · simpa [Cursor.takeValue, hattached, hvalue, Except.map] using h
    | none =>
      -- without a value attached it has its fallback
      have hoptional : m.entry.optional = true := by
        by_contra hno
        exact hwants ⟨hvalue.2, hvalue.1, by simpa using hno, hattached⟩
      simpa [Cursor.takeValue, hattached, hvalue, hoptional, Except.map] using h
  · rw [Mention.stored, if_neg hvalue]
    simp only [if_neg hvalue] at h
    repeat' split at h
    all_goals cases h
    rfl

/-- An option that wants the next argument stores that. -/
theorem Mention.stored_of_wantsNext {m : Mention} (hwants : m.WantsNext)
    (directory : Option String) (value : String) :
    m.stored directory (some value) = some (m.entry.stored directory value) := by
  obtain ⟨htakes, hform, hoptional, hattached⟩ := hwants
  simp [Mention.stored, htakes, hform, hoptional, hattached]

/-! ## The events of a course -/

namespace Table

variable {t : Table} {token : String} {phrase : Phrase}

theorem assignments_log (h : t.word token = .options phrase) :
    phrase.log.filterMap Event.assignment? = [] := by
  rcases options_cases h with ⟨-, rfl⟩ | ⟨given, -, rfl⟩ | ⟨names, -, rfl⟩
  · rfl
  · have hlog : (t.longPhrase given).log =
        (t.resolve given).found.events (String.ofList (t.resolve given).text) := by
      unfold longPhrase
      dsimp only
      split <;> simp_all
    rw [hlog, Lookup.assignments_events]
  · rw [Parser.log_clusterPhrase]
    rfl

end Table

namespace Parser

variable {p : Parser}

theorem Settles.assignments {mentions : List Mention} {following : Option String}
    {events : List Event} (h : p.Settles mentions following events) :
    events.filterMap Event.assignment? =
      mentions.map fun m => m.assignment (m.stored p.directory following) := by
  induction h with
  | nil => rfl
  | @own m more following stored events hwants hvalue hmore ih =>
    rw [List.map_cons, m.stored_of_value? hwants hvalue, ← ih]
    rfl
  | @following m value hwants =>
    rw [List.map_singleton, m.stored_of_wantsNext hwants]
    rfl

theorem Handles.assignments {g : Group} {events : List Event} (h : p.Handles g events) :
    events.filterMap Event.assignment? = g.assignments p := by
  cases h with
  | positional hgoes hword => rfl
  | option hword hclose hsettles =>
    simp only [Group.assignments, hword]
    rw [List.filterMap_append, Table.assignments_log hword, hsettles.assignments, List.nil_append]

/-- The events of a course hold the assignments of its groups. -/
theorem HandlesAll.assignments {groups : List Group} {events : List Event}
    (h : p.HandlesAll groups events) :
    events.filterMap Event.assignment? = groups.flatMap (Group.assignments p) := by
  induction h with
  | nil => rfl
  | cons hgroup hmore ih =>
    rw [List.filterMap_append, hgroup.assignments, ih, List.flatMap_cons]

/-- The slots after a course are overwritten by the assignments of its groups, in their order. -/
theorem HandlesAll.after {groups : List Group} {events : List Event}
    (h : p.HandlesAll groups events) (slots : Slots) :
    slots.after events = (groups.flatMap (Group.assignments p)).foldl Assignment.apply slots := by
  rw [Slots.after, h.assignments]

end Parser

end CommandLine
