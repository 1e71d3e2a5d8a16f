import CommandLine.Proofs.Lookup.ShortName
import CommandLine.Proofs.Parser.Exchange

/-!
# The ways to give a value

A value may follow the long name of its option as the next argument or behind an equals sign, and
likewise its short name. Each way is one group of arguments that stores the value and nothing else
(`Parser.Stores`), so that a parse comes to the same whichever is chosen
(`Parser.agrees_of_mem_waysToGive`).
-/

namespace CommandLine

/-- The ways to give `value` to an option under its short name and the long name `name`. A `bare`
option has no equals sign behind its long name, and an empty value is not packed with the short
one. -/
def Entry.waysToGive (e : Entry) (name value : String) : List (List String) :=
  let long := ["--" ++ name, value] :: if e.bare then [] else [["--" ++ name ++ "=" ++ value]]
  let short := match e.short with
    | none => []
    | some c =>
      ["-" ++ c.toString, value] :: if value = "" then [] else [["-" ++ c.toString ++ value]]
  long ++ short

theorem Entry.mem_waysToGive_iff {e : Entry} {name value : String} {way : List String} :
    way ∈ e.waysToGive name value ↔
      way = ["--" ++ name, value] ∨ (e.bare = false ∧ way = ["--" ++ name ++ "=" ++ value]) ∨
        ∃ c, e.short = some c ∧ (way = ["-" ++ c.toString, value] ∨
          (value ≠ "" ∧ way = ["-" ++ c.toString ++ value])) := by
  unfold waysToGive
  cases e.short with
  | none => cases e.bare <;> simp
  | some c =>
    by_cases hempty : value = ""
    · cases e.bare <;> simp [hempty]
    · cases e.bare <;> simp [hempty]

namespace Parser

variable {p : Parser} {token value : String} {m : Mention} {log : List Event} {i : Nat}
  {e : Entry}

/-! ## Groups that store one value -/

/-- The arguments are one group, whose only effect is that the option stores `value`. -/
def Stores (p : Parser) (i : Nat) (e : Entry) (value : String) (arguments : List String) : Prop :=
  ∃ g events form, arguments = g.tokens ∧ g.positionals = [] ∧ p.Handles g events ∧
    g.assignments p = [⟨i, e, form, some (e.stored p.directory value)⟩]

/-- Of the form in which a value was given nothing is left in its slot. -/
theorem content_of_takesValue (htakes : e.takesValue = true) (form : Form)
    (stored : Option String) : Assignment.content ⟨i, e, form, stored⟩ = .text stored := by
  have hkind : e.kind = .text ∨ e.kind = .path := by
    simpa [Entry.takesValue] using htakes
  rcases hkind with hkind | hkind <;> simp [Assignment.content, hkind]

/-- An option that wants the next argument stores it. -/
theorem stores_next (hword : p.table.word token = .options ⟨log, [m], .settled⟩)
    (hwants : m.WantsNext) (value : String) : p.Stores m.index m.entry value [token, value] := by
  refine ⟨.option token (some value), _, m.form, rfl, rfl,
    .option hword rfl (.following hwants), ?_⟩
  simp only [Group.assignments, hword]
  rw [List.map_singleton, m.stored_of_wantsNext hwants]
  rfl

/-- An argument with one option that does not want the next argument is a group of its own, and
assigns that option. -/
theorem handles_alone (hword : p.table.word token = .options ⟨log, [m], .settled⟩)
    (hwants : ¬ m.WantsNext) {stored : Option String} (hvalue : m.value? p.directory = .ok stored) :
    (∃ events, p.Handles (.option token none) events) ∧
      Group.assignments p (.option token none) = [m.assignment stored] := by
  refine ⟨⟨_, .option hword rfl (.own hwants hvalue .nil)⟩, ?_⟩
  simp only [Group.assignments, hword]
  rw [List.map_singleton, m.stored_of_value? hwants hvalue]

theorem not_wantsNext_of_attached (hattached : m.attached = some value) : ¬ m.WantsNext := by
  intro hwants
  rw [hwants.2.2.2] at hattached
  cases hattached

/-- A value attached is the one to store, if the option may have it attached. -/
theorem value?_of_attached (hattached : m.attached = some value)
    (htakes : m.entry.takesValue = true) (hform : m.form ≠ .negated)
    (haccepts : m.form = .long → m.entry.bare = false) (directory : Option String) :
    m.value? directory = .ok (some (m.entry.stored directory value)) := by
  have hrefuses : ¬ (m.form ≠ .short ∧ m.attached.isSome = true ∧
      m.entry.refusesAttached = true) := by
    rintro ⟨hshort, -, hrefuses⟩
    have hlong : m.form = .long := by
      cases hshape : m.form with
      | long => rfl
      | short => exact absurd hshape hshort
      | negated => exact absurd hshape hform
    simp [Entry.refusesAttached, htakes, haccepts hlong] at hrefuses
  rw [Mention.value?, Cursor.assign, if_neg (by simp [hform]), if_neg (by simp [hform]),
    if_neg hrefuses, if_pos ⟨hform, htakes⟩]
  simp [Cursor.takeValue, hattached, Except.map]

/-- An option with a value attached stores that, if it may have one attached. -/
theorem stores_attached (hword : p.table.word token = .options ⟨log, [m], .settled⟩)
    (hattached : m.attached = some value) (htakes : m.entry.takesValue = true)
    (hform : m.form ≠ .negated) (haccepts : m.form = .long → m.entry.bare = false) :
    p.Stores m.index m.entry value [token] := by
  obtain ⟨⟨events, hhandles⟩, hassigns⟩ := handles_alone hword
    (not_wantsNext_of_attached hattached)
    (value?_of_attached hattached htakes hform haccepts p.directory)
  exact ⟨.option token none, events, m.form, rfl, rfl, hhandles, hassigns⟩

/-! ## What each way mentions -/

/-- The text after two dashes that is found mentions the option that it finds. -/
theorem word_of_found {given : List Char} {hit : Hit} (hlong : IsLong token given)
    (hfound : (p.table.resolve given).found = .found hit) :
    ∃ log, p.table.word token = .options
      ⟨log, [⟨hit.index, hit.entry, hit.reading.form, (p.table.resolve given).attached⟩],
        .settled⟩ := by
  refine ⟨(p.table.resolve given).found.events (String.ofList (p.table.resolve given).text), ?_⟩
  rw [Table.word_of_isLong hlong]
  simp only [Table.longPhrase, hfound]

/-- A text that is resolved to an option mentions it, unless it is a call for help. -/
theorem word_of_resolvesTo {text : List Char} {form : Form}
    (h : p.table.ResolvesTo text i e form) (hhelp : text ≠ "help".toList) :
    ∃ log, p.table.word ("--" ++ String.ofList text) =
      .options ⟨log, [⟨i, e, form, none⟩], .settled⟩ := by
  have hne := h.ne_nil
  obtain ⟨r, hresolve, hform⟩ := h
  have hfound : (p.table.resolve text).found = .found ⟨i, e, r⟩ := by rw [hresolve]
  have hlong : IsLong ("--" ++ String.ofList text) text := ⟨by simp, hne, hhelp⟩
  obtain ⟨log, hword⟩ := word_of_found hlong hfound
  rw [hresolve, hform] at hword
  exact ⟨log, hword⟩

/-- The short name of an option with a value mentions that option, with all that follows. -/
theorem word_of_short {c : Char} {packed : List Char} (hvalid : p.table.defect? = none)
    (hget : p.table[i]? = some e) (htakes : e.takesValue = true) (hshort : e.short = some c)
    (htoken : token.toList = '-' :: c :: packed) :
    p.table.word token = .options
      ⟨[], [⟨i, e, .short, if packed.isEmpty then none else some (String.ofList packed)⟩],
        .settled⟩ := by
  have hoption : e.isHeading = false := by
    by_contra hheading
    have hkind : e.kind = .heading := by simpa [Entry.isHeading] using hheading
    simp [Entry.takesValue, hkind] at htakes
  have hfind : p.table.findShort? c = some (i, e) :=
    (Table.findShort?_eq_some_iff hvalid).2 ⟨hget, hoption, hshort⟩
  rw [Table.word_of_cluster (Table.short_ne_dash hvalid hget hoption hshort) htoken,
    Table.clusterPhrase, hfind]
  simp [htakes]

section

variable {name : String} {hit : Hit} (hequals : '=' ∉ name.toList)
  (hfound : p.table.lookup name.toList = .found hit)

include hequals hfound

/-- A long name alone mentions the option that it finds. -/
theorem word_of_long_alone (hhelp : name ≠ "help") :
    ∃ log, p.table.word ("--" ++ name) =
      .options ⟨log, [⟨hit.index, hit.entry, hit.reading.form, none⟩], .settled⟩ := by
  have hresolves : p.table.ResolvesTo name.toList hit.index hit.entry hit.reading.form :=
    ⟨hit.reading, by simp only [Table.resolve, splitAttached_of_notMem hequals, hfound], rfl⟩
  have hword := word_of_resolvesTo hresolves fun hsame => hhelp (String.toList_injective hsame)
  rwa [String.ofList_toList] at hword

/-- What is in front of the first equals sign is the name, whatever the value behind it holds. -/
theorem word_of_long_attached (value : String) :
    ∃ log, p.table.word ("--" ++ name ++ "=" ++ value) =
      .options ⟨log, [⟨hit.index, hit.entry, hit.reading.form, some value⟩], .settled⟩ := by
  have hresolve : p.table.resolve (name.toList ++ '=' :: value.toList) =
      ⟨name.toList, some value, .found hit⟩ := by
    simp only [Table.resolve, splitAttached_append hequals, hfound, String.ofList_toList]
  have hgiven : name.toList ++ '=' :: value.toList ≠ ['h', 'e', 'l', 'p'] := by
    intro hsame
    have hmem : '=' ∈ ['h', 'e', 'l', 'p'] := by
      rw [← hsame]
      simp
    simp at hmem
  have hfound' : (p.table.resolve (name.toList ++ '=' :: value.toList)).found = .found hit := by
    rw [hresolve]
  have hlong : IsLong ("--" ++ name ++ "=" ++ value) (name.toList ++ '=' :: value.toList) :=
    ⟨by simp, by simp, hgiven⟩
  obtain ⟨log, hword⟩ := word_of_found hlong hfound'
  rw [hresolve] at hword
  exact ⟨log, hword⟩

variable (hform : hit.reading.form = .long) (htakes : hit.entry.takesValue = true)

include hform htakes

/-- The value follows the long name. -/
theorem stores_long_next (hoptional : hit.entry.optional = false) (hhelp : name ≠ "help")
    (value : String) : p.Stores hit.index hit.entry value ["--" ++ name, value] := by
  obtain ⟨log, hword⟩ := word_of_long_alone hequals hfound hhelp
  exact stores_next hword ⟨htakes, by simp [hform], hoptional, rfl⟩ value

/-- The value stands behind an equals sign. -/
theorem stores_long_attached (hbare : hit.entry.bare = false) (value : String) :
    p.Stores hit.index hit.entry value ["--" ++ name ++ "=" ++ value] := by
  obtain ⟨log, hword⟩ := word_of_long_attached hequals hfound value
  exact stores_attached hword rfl htakes (by simp [hform]) fun _ => hbare

end

section

variable {c : Char} (hvalid : p.table.defect? = none) (hget : p.table[i]? = some e)
  (htakes : e.takesValue = true) (hshort : e.short = some c)

include hvalid hget htakes hshort

/-- The value follows the short name. -/
theorem stores_short_next (hoptional : e.optional = false) (value : String) :
    p.Stores i e value ["-" ++ c.toString, value] := by
  have htoken : ("-" ++ c.toString).toList = ['-', c] := by simp
  have hword := word_of_short hvalid hget htakes hshort htoken
  exact stores_next hword ⟨htakes, by simp, hoptional, rfl⟩ value

/-- The value is packed with the short name. -/
theorem stores_short_packed (hvalue : value ≠ "") :
    p.Stores i e value ["-" ++ c.toString ++ value] := by
  have htoken : ("-" ++ c.toString ++ value).toList = '-' :: c :: value.toList := by simp
  have hword := word_of_short hvalid hget htakes hshort htoken
  have hpacked : value.toList.isEmpty = false := by simpa using hvalue
  rw [hpacked, String.ofList_toList] at hword
  exact stores_attached hword rfl htakes (by simp) (by simp)

end

/-! ## One way for another -/

/-- No way to give a value is a call for help. -/
theorem waysToGive_ne_help {name : String} {way : List String}
    (hway : way ∈ e.waysToGive name value) (second : List String) : way ++ second ≠ ["-h"] := by
  rcases Entry.mem_waysToGive_iff.1 hway with rfl | ⟨_, rfl⟩ | ⟨c, _, rfl | ⟨hvalue, rfl⟩⟩
  · simp
  · intro hsame
    have htoken : "--" ++ name ++ "=" ++ value = "-h" := (List.cons.inj hsame).1
    have hlist := congrArg String.toList htoken
    simp at hlist
  · simp
  · intro hsame
    have htoken : "-" ++ c.toString ++ value = "-h" := (List.cons.inj hsame).1
    have hlist := congrArg String.toList htoken
    simp [hvalue] at hlist

/-- Behind arguments that were all handled, and in front of any others, a parse comes to the same
whichever way a value is given. -/
theorem agrees_of_mem_waysToGive {first : List String} {slots : Slots} {out err : Sink} {n : Nat}
    (hkeeps : p.mode.keepFirst = true → first ≠ [])
    (hok : (p.parse first slots out err).outcome = .ok n)
    (hall : (p.parse first slots out err).HandledAll) {name : String} {hit : Hit}
    (hequals : '=' ∉ name.toList) (hhelp : name ≠ "help")
    (hfound : p.table.lookup name.toList = .found hit) (hform : hit.reading.form = .long)
    (htakes : hit.entry.takesValue = true) (hoptional : hit.entry.optional = false)
    {one other : List String} (hone : one ∈ hit.entry.waysToGive name value)
    (hother : other ∈ hit.entry.waysToGive name value) (second : List String) :
    (p.parse (first ++ one ++ second) slots out err).Agrees
      (p.parse (first ++ other ++ second) slots out err) := by
  obtain ⟨groups, events, hpasses⟩ := exists_passes hok hall
  have hget : p.table[hit.index]? = some hit.entry :=
    (Table.mem_hits_iff.1 (Table.mem_hits_of_lookup hfound)).1
  have hstores : ∀ way ∈ hit.entry.waysToGive name value,
      p.Stores hit.index hit.entry value way := by
    intro way hway
    rcases Entry.mem_waysToGive_iff.1 hway with
      rfl | ⟨hbare, rfl⟩ | ⟨c, hshort, rfl | ⟨hvalue, rfl⟩⟩
    · exact stores_long_next hequals hfound hform htakes hoptional hhelp value
    · exact stores_long_attached hequals hfound hform htakes hbare value
    · exact stores_short_next hpasses.valid hget htakes hshort hoptional value
    · exact stores_short_packed hpasses.valid hget htakes hshort hvalue
  obtain ⟨g₁, events₁, form₁, rfl, hpositionals₁, hhandles₁, hassigns₁⟩ := hstores one hone
  obtain ⟨g₂, events₂, form₂, rfl, hpositionals₂, hhandles₂, hassigns₂⟩ := hstores other hother
  have hall₁ : p.HandlesAll [g₁] (events₁ ++ []) := .cons hhandles₁ .nil
  have hall₂ : p.HandlesAll [g₂] (events₂ ++ []) := .cons hhandles₂ .nil
  have hlone₁ := waysToGive_ne_help hone second
  have hlone₂ := waysToGive_ne_help hother second
  -- the form that is left in the assignment makes no difference to the slot
  have hslots : ∀ slots : Slots, slots.after (events₁ ++ []) = slots.after (events₂ ++ []) := by
    intro slots
    rw [hall₁.after, hall₂.after]
    simp [hassigns₁, hassigns₂, Assignment.apply, content_of_takesValue htakes]
  have hagrees := hpasses.agrees hkeeps hall₁ hall₂ (by simp [hpositionals₁, hpositionals₂]) hslots
    (by simpa using hlone₁) (by simpa using hlone₂) slots out err
  simpa using hagrees

/-- Dashes are a value like any other, behind an abbreviated name or packed with a short one. -/
theorem agrees_with_packed_dashes :
    recorder.table.lookup "out".toList =
        .found ⟨1, { kind := .text, long := "output", short := some 'o' }, .abbreviation .long⟩ ∧
      (recorder.parse ["record", "-v", "--out", "--", "-v", "take"] [.truth false, .text none] {}
        {}).Agrees
      (recorder.parse ["record", "-v", "-o--", "-v", "take"] [.truth false, .text none] {} {}) := by
  have hfound : recorder.table.lookup "out".toList =
      .found ⟨1, { kind := .text, long := "output", short := some 'o' }, .abbreviation .long⟩ := by
    decide +kernel
  have hok : (recorder.parse ["record", "-v"] [.truth false, .text none] {} {}).outcome =
      .ok 1 := by decide +kernel
  have hall : (recorder.parse ["record", "-v"] [.truth false, .text none] {} {}).HandledAll := by
    decide +kernel
  have hnext : ["--out", "--"] ∈ recorder.table[1].waysToGive "out" "--" := by decide
  have hpacked : ["-o--"] ∈ recorder.table[1].waysToGive "out" "--" := by decide
  exact ⟨hfound, agrees_of_mem_waysToGive (fun _ => by simp) hok hall (by decide) (by decide) hfound
    rfl rfl rfl hnext hpacked ["-v", "take"]⟩

end Parser

end CommandLine
