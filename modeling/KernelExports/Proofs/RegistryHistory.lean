import KernelExports.Proofs.RegistryRuns

/-!
# What a history of changes leaves behind

The record that a name has after changes to an empty registry can be read off the changes alone.
Nothing counts but what comes after the last removal of the name, and there nothing counts before
the first insertion of the name, which is the live one: it gives the value, later marks give the
mark, and the last link that is set later, if there is one, replaces the link of the insertion.

The proof goes through a history in this order: up to the last removal, up to the live insertion,
and to the end.
-/

namespace KernelExports

namespace Change

/-- Whether a change inserts a record of the name. -/
def inserts (name : String) (change : Change) : Bool :=
  change.offered?.any fun offered => offered.name = name

/-- The link that a change sets for the name. -/
def linkFor? (name : String) : Change → Option (Option String)
  | setLink other link => if other = name then some link else none
  | insert _ _ | insertCopy _ | mark _ | remove _ => none

/-- A change inserts a name if it offers a record of this name. -/
theorem inserts_iff {name : String} {change : Change} :
    change.inserts name ↔ ∃ offered, change.offered? = some offered ∧ offered.name = name := by
  rw [inserts, Option.any_eq_true]
  simp only [decide_eq_true_eq]

/-- What is neither an insertion nor about the name makes no record of the name. -/
theorem effect_none_of_not_inserts {name : String} {change : Change} (here : change.name = name)
    (idle : change.inserts name = false) : change.effect none = none := by
  refine effect_none_of_offered? (Option.eq_none_iff_forall_ne_some.mpr fun offered offers => ?_)
  have inserting : change.inserts name :=
    inserts_iff.mpr ⟨offered, offers, (name_of_offered? offers).trans here⟩
  rw [inserting] at idle
  cases idle

/-- A change that does not remove a record may mark it and may set its link. -/
theorem effect_some {name : String} {change : Change} (kept : change ≠ .remove name)
    (record : Record) :
    (if change.name = name then change.effect (some record) else some record) =
      some { record with
        marked := record.marked || decide (change = .mark name)
        link := (change.linkFor? name).getD record.link } := by
  cases change with
  | insert other value => simp [effect, linkFor?]
  | insertCopy other => simp [effect, linkFor?]
  | mark other => by_cases same : other = name <;> simp [effect, linkFor?, Change.name, same]
  | setLink other link =>
    by_cases same : other = name <;> simp [effect, linkFor?, Change.name, same]
  | remove other =>
    have different : other ≠ name := fun same => kept (congrArg _ same)
    simp [linkFor?, Change.name, different]

end Change

/-- In a history, the first insertion of a name behind the last removal of the name, or the first of
all if the name was never removed, with the record that it offers and the changes behind it. -/
inductive LiveInsertion (name : String) : List Change → Record → List Change → Prop where
  /-- The `past` ends with the last removal. Up to the insertion nothing else inserts the name. -/
  | intro (past idle : List Change) (insertion : Change) (offered : Record) (later : List Change)
    (removed : past = [] ∨ past.getLast? = some (.remove name))
    (kept : .remove name ∉ idle ++ insertion :: later)
    (first : ∀ change ∈ idle, change.inserts name = false)
    (offers : insertion.offered? = some offered) (named : offered.name = name) :
    LiveInsertion name (past ++ (idle ++ insertion :: later)) offered later

/-- The record of a name whose insertion offered a record and was followed by the given changes. -/
def Record.followedBy (offered : Record) (later : List Change) : Record where
  name := offered.name
  value := offered.value
  marked := decide (.mark offered.name ∈ later)
  link := (later.filterMap (Change.linkFor? offered.name)).getLast?.getD offered.link

namespace Registry

/-! ### Up to the live insertion -/

/-- At the last removal of a name, and where there was nothing yet, the name has no record. -/
theorem get?_run_past {name : String} {past : List Change}
    (removed : past = [] ∨ past.getLast? = some (.remove name)) :
    (empty.run past).get? name = none := by
  rcases removed with rfl | last
  · exact get?_empty name
  · obtain ⟨before, rfl⟩ := List.getLast?_eq_some_iff.mp last
    have here : (Change.remove name).name = name := rfl
    rw [run_append, run_cons, run_nil, get?_perform, if_pos here]
    rfl

/-- A name that nothing inserts stays absent. -/
theorem get?_run_idle {registry : Registry} {name : String} {idle : List Change}
    (absent : registry.get? name = none) (first : ∀ change ∈ idle, change.inserts name = false) :
    (registry.run idle).get? name = none := by
  induction idle generalizing registry with
  | nil => exact absent
  | cons change rest ih =>
    obtain ⟨this, others⟩ := List.forall_mem_cons.mp first
    have still : (registry.perform change).2.get? name = none := by
      rw [get?_perform, absent]
      split
      · next here => exact Change.effect_none_of_not_inserts here this
      · rfl
    exact ih still others

/-- Every history reaches the live insertion of a name, or ends without one. -/
theorem live_or_idle (name : String) (history : List Change) :
    (∃ offered later, LiveInsertion name history offered later) ∨
      ∃ past idle, history = past ++ idle ∧ (past = [] ∨ past.getLast? = some (.remove name)) ∧
        ∀ change ∈ idle, change.inserts name = false := by
  have split : ∃ past since, history = past ++ since ∧
      (past = [] ∨ past.getLast? = some (.remove name)) ∧ .remove name ∉ since := by
    induction history using List.reverseRecOn with
    | nil => exact ⟨[], [], rfl, .inl rfl, List.not_mem_nil⟩
    | append_singleton before change ih =>
      by_cases removal : change = .remove name
      · have last : (before ++ [change]).getLast? = some (.remove name) := by
          rw [List.getLast?_concat, removal]
        exact ⟨before ++ [change], [], (List.append_nil _).symm, .inr last, List.not_mem_nil⟩
      · obtain ⟨past, since, rfl, removed, kept⟩ := ih
        have still : .remove name ∉ since ++ [change] := by
          rw [List.mem_append, List.mem_singleton]
          exact not_or.mpr ⟨kept, Ne.symm removal⟩
        exact ⟨past, since ++ [change], List.append_assoc _ _ _, removed, still⟩
  obtain ⟨past, since, rfl, removed, kept⟩ := split
  cases found : since.find? (Change.inserts name) with
  | none =>
    have idle : ∀ change ∈ since, change.inserts name = false := fun change member =>
      Bool.eq_false_of_not_eq_true (List.find?_eq_none.mp found change member)
    exact .inr ⟨past, since, rfl, removed, idle⟩
  | some insertion =>
    obtain ⟨inserting, idle, later, rfl, first⟩ := List.find?_eq_some_iff_append.mp found
    obtain ⟨offered, offers, named⟩ := Change.inserts_iff.mp inserting
    have first' : ∀ change ∈ idle, change.inserts name = false := fun change member => by
      simpa using first change member
    exact .inl ⟨offered, later, .intro past idle insertion offered later removed kept first' offers
      named⟩

/-! ### From the live insertion on -/

/-- Where a record is not removed, it is marked and linked as the changes say. -/
theorem get?_run_kept {registry : Registry} {name : String} {record : Record}
    {changes : List Change} (present : registry.get? name = some record)
    (kept : .remove name ∉ changes) :
    (registry.run changes).get? name = some { record with
      marked := record.marked || decide (.mark name ∈ changes)
      link := (changes.filterMap (Change.linkFor? name)).getLast?.getD record.link } := by
  induction changes generalizing registry record with
  | nil => simpa [run_nil] using present
  | cons change rest ih =>
    rw [List.mem_cons, not_or] at kept
    obtain ⟨this, others⟩ := kept
    have next := get?_perform registry change name
    rw [present, Change.effect_some (Ne.symm this)] at next
    rw [run_cons, ih next others]
    cases set : change.linkFor? name <;>
      simp [set, List.getLast?_cons, eq_comm, Bool.or_assoc]

/-- The record after a history with a live insertion. -/
theorem get?_run_of_live {name : String} (nonempty : name ≠ "") {history : List Change}
    {offered : Record} {later : List Change} (live : LiveInsertion name history offered later) :
    (empty.run history).get? name = some (offered.followedBy later) := by
  obtain ⟨past, idle, insertion, offered, later, removed, kept, first, offers, rfl⟩ := live
  have before : ((empty.run past).run idle).get? offered.name = none :=
    get?_run_idle (get?_run_past removed) first
  have here : insertion.name = offered.name := (Change.name_of_offered? offers).symm
  have inserted : (((empty.run past).run idle).perform insertion).2.get? offered.name =
      some { offered with marked := false } := by
    rw [get?_perform, if_pos here, before, Change.effect_of_offered? offers, Option.none_or, here,
      if_neg nonempty]
  have kept_later : .remove offered.name ∉ later := fun member =>
    kept (List.mem_append_right _ (List.mem_cons_of_mem _ member))
  rw [run_append, run_append, run_cons, get?_run_kept inserted kept_later, Bool.false_or]
  rfl

/-- A name has a record exactly if it has a live insertion. -/
theorem get?_run_iff {history : List Change} {name : String} {record : Record} :
    (empty.run history).get? name = some record ↔
      name ≠ "" ∧ ∃ offered later, LiveInsertion name history offered later ∧
        record = offered.followedBy later := by
  have wellFormed := wellFormed_run wellFormed_empty history
  constructor
  · intro found
    have nonempty : name ≠ "" := by
      intro same
      rw [same, wellFormed.named] at found
      cases found
    rcases live_or_idle name history with ⟨offered, later, live⟩ | ⟨past, idle, rfl, removed, first⟩
    · rw [get?_run_of_live nonempty live, Option.some_inj] at found
      exact ⟨nonempty, offered, later, live, found.symm⟩
    · rw [run_append, get?_run_idle (get?_run_past removed) first] at found
      cases found
  · intro h
    obtain ⟨nonempty, offered, later, live, rfl⟩ := h
    exact get?_run_of_live nonempty live

end Registry

/-! ### Replies -/

/-- Whether a reply says that nothing was done. -/
def Reply.failed : Reply → Bool
  | refused _ | found false | removed none => true
  | inserted _ | found true | removed (some _) => false

namespace Registry

/-- What a caller learns from the reply to a change, and what it can rely on afterwards. -/
structure Answers (registry : Registry) (change : Change) : Prop where
  /-- An insertion is refused where its name is empty, -/
  nameless_iff : (registry.perform change).1 = .refused .emptySymbolName ↔
    ∃ offered, change.offered? = some offered ∧ offered.name = ""
  /-- and where its name has a record. -/
  duplicate_iff : ∀ name, (registry.perform change).1 = .refused (.duplicateSymbol name) ↔
    change.inserts name ∧ (registry.get? name).isSome
  /-- Otherwise it adds its record without the mark. -/
  inserted : ∀ offered, change.offered? = some offered → offered.name ≠ "" →
    registry.get? offered.name = none →
      (registry.perform change).1 = .inserted (some { offered with marked := false })
  /-- A mark finds a record exactly if the name has one, -/
  marked : ∀ name, change = .mark name →
    (registry.perform change).1 = .found (registry.get? name).isSome
  /-- and so does a link. -/
  linked : ∀ name link, change = .setLink name link →
    (registry.perform change).1 = .found (registry.get? name).isSome
  /-- A removal gives the record that the name had. -/
  removed : ∀ name, change = .remove name →
    (registry.perform change).1 = .removed (registry.get? name)
  /-- A change that fails changes nothing. -/
  kept : (registry.perform change).1.failed → (registry.perform change).2 = registry
  /-- No change affects other names. -/
  others : ∀ name, name ≠ change.name →
    (registry.perform change).2.get? name = registry.get? name

/-- The reply to a record that is offered says why it is refused, or gives it back. -/
theorem reply_of_offered? {change : Change} {offered : Record}
    (offers : change.offered? = some offered) (current : Option Record) :
    change.reply current =
      if offered.name = "" then .refused .emptySymbolName
      else if current.isSome then .refused (.duplicateSymbol offered.name)
      else .inserted (change.effect current) := by
  cases change <;> cases offers <;> rfl

/-- Only an insertion is refused. -/
theorem reply_ne_refused {change : Change} (offers : change.offered? = none)
    (current : Option Record) (error : Error) : change.reply current ≠ .refused error := by
  cases change with
  | insert name value => cases offers
  | insertCopy record => cases offers
  | mark name => simp [Change.reply]
  | setLink name link => simp [Change.reply]
  | remove name => simp [Change.reply]

/-- Where a change replies that nothing was done it leaves the record of its name. -/
theorem effect_of_failed {change : Change} {current : Option Record}
    (named : change.name = "" → current = none) (failed : (change.reply current).failed) :
    change.effect current = current := by
  cases current with
  | some record =>
    cases change with
    | insert name value => rfl
    | insertCopy other => rfl
    | mark name => cases failed
    | setLink name link => cases failed
    | remove name => cases failed
  | none =>
    cases offers : change.offered? with
    | none => exact Change.effect_none_of_offered? offers
    | some offered =>
      rw [Change.effect_of_offered? offers]
      by_cases empty : change.name = ""
      · rw [if_pos empty]
        rfl
      · cases change <;> simp_all [Change.reply, Reply.failed, Change.offered?]

/-- A well-formed registry answers every change from what it has. -/
theorem WellFormed.answers {registry : Registry} (wellFormed : registry.WellFormed)
    (change : Change) : registry.Answers change := by
  have done := performs registry change
  have named : change.name = "" → registry.get? change.name = none := fun empty => by
    rw [empty, wellFormed.named]
  exact {
    nameless_iff := by
      rw [done.reply]
      cases offers : change.offered? with
      | none => simp [reply_ne_refused offers]
      | some offered =>
        rw [reply_of_offered? offers]
        simp only [Option.some.injEq, exists_eq_left']
        split
        · next empty => simp [empty]
        · next nonempty => split <;> simp [nonempty]
    duplicate_iff := fun name => by
      rw [done.reply]
      cases offers : change.offered? with
      | none => simp [reply_ne_refused offers, Change.inserts, offers]
      | some offered =>
        rw [← Change.name_of_offered? offers] at named ⊢
        rw [reply_of_offered? offers, Change.inserts, offers]
        simp only [Option.any_some, decide_eq_true_eq]
        by_cases same : offered.name = name
        · subst same
          split
          · next empty => simp [named empty]
          · next nonempty => split <;> simp_all
        · split
          · simp [same]
          · split <;> simp [same]
    inserted := fun offered offers nonempty absent => by
      rw [Change.name_of_offered? offers] at absent
      rw [done.reply, reply_of_offered? offers, if_neg nonempty, absent,
        Change.effect_of_offered? offers, ← Change.name_of_offered? offers, if_neg nonempty]
      rfl
    marked := fun name same => by
      subst same
      exact done.reply
    linked := fun name link same => by
      subst same
      exact done.reply
    removed := fun name same => by
      subst same
      exact done.reply
    kept := fun failed => by
      rw [done.reply] at failed
      exact perform_eq_self wellFormed.counted (effect_of_failed named failed)
    others := done.others }

/-- What changes leave behind in an empty registry, and what they reply, can be read off the
history. A name has a record exactly if it is not empty and has a live insertion; the record is the
one that the insertion offered, with the mark and the link that came later. The replies to the next
change say what the registry then holds. -/
theorem history_determines (history : List Change) :
    (∀ name record, (empty.run history).get? name = some record ↔
      name ≠ "" ∧ ∃ offered later, LiveInsertion name history offered later ∧
        record = offered.followedBy later) ∧
    ∀ change, (empty.run history).Answers change :=
  ⟨fun _ _ => get?_run_iff, (wellFormed_run wellFormed_empty history).answers⟩

/-- A record that is taken out loses its mark when it is put back, and keeps its link. -/
example :
    (empty.run [.mark "a", .insert "a" 7, .setLink "a" "b", .mark "a", .remove "a",
      .insertCopy ⟨"a", 7, true, "b"⟩, .insert "a" 8]).get? "a" =
      some ⟨"a", 7, false, some "b"⟩ := by
  decide

end Registry

end KernelExports
