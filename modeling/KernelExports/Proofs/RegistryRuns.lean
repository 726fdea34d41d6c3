import KernelExports.Proofs.RegistryLaws

/-!
# Runs of changes

A caller makes changes to a registry one after the other, and each change has a reply. What a change
does is said once (`performs`): it looks at the record of its name, replies what `Change.reply`
makes of this record, replaces it by what `Change.effect` makes of it, and keeps the count of marks
in step with it. Everything that holds of all registries that a caller can come to follows from
that.
-/

namespace KernelExports

/-- A change of a registry. -/
inductive Change where
  /-- Adds a record without a link. -/
  | insert (name : String) (value : UInt64)
  /-- Adds a copy of a record, of this registry or of another one. -/
  | insertCopy (record : Record)
  /-- Marks the record of a name. -/
  | mark (name : String)
  /-- Replaces the link of the record of a name. -/
  | setLink (name : String) (link : Option String)
  /-- Takes out the record of a name. -/
  | remove (name : String)
  deriving DecidableEq, Repr

/-- What a change replies. -/
inductive Reply where
  /-- The insertion was made. This is the record that the name has now. -/
  | inserted (record : Option Record)
  /-- The insertion was refused. -/
  | refused (error : Error)
  /-- Whether there is a record to mark or to link. -/
  | found (present : Bool)
  /-- The record that was taken out, if there was one. -/
  | removed (record : Option Record)
  deriving DecidableEq, Repr

namespace Change

/-- The name whose record a change is about. -/
def name : Change → String
  | insert name _ | mark name | setLink name _ | remove name => name
  | insertCopy record => record.name

/-- The record that an insertion comes with. -/
def offered? : Change → Option Record
  | insert name value => some ⟨name, value, false, none⟩
  | insertCopy record => some record
  | mark _ | setLink _ _ | remove _ => none

/-- What a change makes of the record of its name. -/
def effect (change : Change) (current : Option Record) : Option Record :=
  match change with
  | insert _ _ | insertCopy _ =>
    current.or (if change.name = "" then none
      else change.offered?.map fun record => { record with marked := false })
  | mark _ => current.map fun record => { record with marked := true }
  | setLink _ link => current.map fun record => { record with link }
  | remove _ => none

/-- What a change replies where its name has the given record. -/
def reply (change : Change) (current : Option Record) : Reply :=
  match change with
  | insert _ _ | insertCopy _ =>
    if change.name = "" then .refused .emptySymbolName
    else if current.isSome then .refused (.duplicateSymbol change.name)
    else .inserted (change.effect current)
  | mark _ | setLink _ _ => .found current.isSome
  | remove _ => .removed current

/-- A record is offered under the name of the change. -/
theorem name_of_offered? {change : Change} {offered : Record}
    (offers : change.offered? = some offered) : offered.name = change.name := by
  cases change <;> cases offers <;> rfl

/-- An insertion adds its record, unmarked, where there is none. -/
theorem effect_of_offered? {change : Change} {offered : Record}
    (offers : change.offered? = some offered) (current : Option Record) :
    change.effect current = current.or
      (if change.name = "" then none else some { offered with marked := false }) := by
  cases change <;> cases offers <;> rfl

/-- Without a record no other change makes one. -/
theorem effect_none_of_offered? {change : Change} (offers : change.offered? = none) :
    change.effect none = none := by
  cases change with
  | insert name value => cases offers
  | insertCopy record => cases offers
  | mark name => rfl
  | setLink name link => rfl
  | remove name => rfl

/-- A change leaves a record under its own name, which is not empty. -/
theorem name_of_effect {change : Change} {current : Option Record} {record : Record}
    (own : ∀ old, current = some old → old.name = change.name)
    (named : change.name = "" → current = none) (left : change.effect current = some record) :
    record.name = change.name ∧ change.name ≠ "" := by
  cases present : current with
  | some old =>
    have nonempty : change.name ≠ "" := fun empty => by
      rw [named empty] at present
      cases present
    refine ⟨?_, nonempty⟩
    rw [← own old present]
    subst present
    cases change <;> cases left <;> rfl
  | none =>
    subst present
    cases offers : change.offered? with
    | none =>
      rw [effect_none_of_offered? offers] at left
      cases left
    | some offered =>
      rw [effect_of_offered? offers, Option.none_or] at left
      split at left
      · cases left
      · next nonempty =>
        cases left
        exact ⟨(name_of_offered? offers :), nonempty⟩

end Change

namespace Registry

/-- The reply to an insertion with the given result, and the registry that is left. -/
def replyInserted (registry : Registry) (name : String) :
    Except Error Registry → Reply × Registry
  | .ok extended => (.inserted (extended.get? name), extended)
  | .error error => (.refused error, registry)

/-- The reply to an update with the given result, and the registry that is left. -/
def replyFound (registry : Registry) : Option Registry → Reply × Registry
  | some updated => (.found true, updated)
  | none => (.found false, registry)

/-- The reply to a removal with the given result, and the registry that is left. -/
def replyRemoved (registry : Registry) : Option (Record × Registry) → Reply × Registry
  | some (record, rest) => (.removed (some record), rest)
  | none => (.removed none, registry)

/-- The reply to a change, and the registry that is left. -/
def perform (registry : Registry) : Change → Reply × Registry
  | .insert name value => registry.replyInserted name (registry.insert name value)
  | .insertCopy record => registry.replyInserted record.name (registry.insertCopy record)
  | .mark name => registry.replyFound (registry.mark? name)
  | .setLink name link => registry.replyFound (registry.setLink? name link)
  | .remove name => registry.replyRemoved (registry.remove? name)

/-- The registry after changes that follow each other. -/
def run (registry : Registry) (changes : List Change) : Registry :=
  changes.foldl (fun current change => (current.perform change).2) registry

/-- All that a change does. -/
structure Performs (registry : Registry) (change : Change) (result : Reply × Registry) : Prop where
  /-- The reply depends on nothing but the record of the name. -/
  reply : result.1 = change.reply (registry.get? change.name)
  /-- The same goes for the record that the name has afterwards. -/
  record : result.2.get? change.name = change.effect (registry.get? change.name)
  /-- All other names keep their records. -/
  others : ∀ name, name ≠ change.name → result.2.get? name = registry.get? name
  /-- The count of marks follows the mark of the record. -/
  count : marks (registry.get? change.name) ≤ registry.markCount →
    result.2.markCount + marks (registry.get? change.name) =
      registry.markCount + marks (result.2.get? change.name)

/-- A change without an effect may leave the registry as it is. -/
theorem Performs.unchanged {registry : Registry} {change : Change} {reply : Reply}
    (replied : reply = change.reply (registry.get? change.name))
    (same : change.effect (registry.get? change.name) = registry.get? change.name) :
    registry.Performs change (reply, registry) where
  reply := replied
  record := same.symm
  others _ _ := rfl
  count _ := rfl

/-- A change that makes a record puts it in and counts its mark. -/
theorem Performs.updated {registry : Registry} {change : Change} {reply : Reply} {record : Record}
    {count : Nat} (replied : reply = change.reply (registry.get? change.name))
    (made : change.effect (registry.get? change.name) = some record)
    (counted : count + marks (registry.get? change.name) =
      registry.markCount + marks (some record)) :
    registry.Performs change (reply, ⟨registry.records.insert change.name record, count⟩) where
  reply := replied
  record := by rw [get?_insert_records, if_pos rfl, made]
  others name different := by rw [get?_insert_records, if_neg different]
  count _ := by rw [get?_insert_records, if_pos rfl, counted]

/-- Inserting a copy has the effect that is stated of it. -/
theorem performs_insertCopy (registry : Registry) (record : Record) :
    registry.Performs (.insertCopy record) (registry.perform (.insertCopy record)) := by
  rw [perform]
  by_cases empty : record.name = ""
  · have refused : registry.insertCopy record = .error .emptySymbolName := by
      rw [insertCopy, if_pos empty]
    rw [refused]
    exact .unchanged (by simp [Change.reply, Change.name, empty])
      (by simp [Change.effect, Change.name, empty])
  · cases present : registry.get? record.name with
    | some old =>
      rw [insertCopy_duplicate empty present]
      exact .unchanged (by simp [Change.reply, Change.name, empty, present])
        (by simp [Change.effect, Change.name, present])
    | none =>
      have made : (Change.insertCopy record).effect (registry.get? record.name) =
          some { record with marked := false } := by
        simp [Change.effect, Change.name, Change.offered?, empty, present]
      have added : registry.insertCopy record = .ok { registry with
          records := registry.records.insert record.name { record with marked := false } } := by
        simp [insertCopy, contains, empty, present]
      rw [added, replyInserted, get?_insert_records, if_pos rfl, ← made]
      exact .updated (by simp [Change.reply, Change.name, empty, present]) made
        (by simp [Change.name, present, marks])

/-- A registry does with a change what the change does with the record of its name. -/
theorem performs (registry : Registry) (change : Change) :
    registry.Performs change (registry.perform change) := by
  cases change with
  | insert name value =>
    obtain ⟨reply, record, others, count⟩ := performs_insertCopy registry ⟨name, value, false, none⟩
    exact ⟨reply, record, others, count⟩
  | insertCopy record => exact performs_insertCopy registry record
  | mark name =>
    rw [perform, mark?]
    cases present : registry.get? name with
    | none =>
      exact .unchanged (by simp [Change.reply, Change.name, present])
        (by simp [Change.effect, Change.name, present])
    | some record =>
      by_cases marked : record.marked
      · simp only [marked, if_true]
        exact .unchanged (by simp [Change.reply, Change.name, present])
          (by simp [Change.effect, Change.name, present, ← marked])
      · simp only [marked]
        exact .updated (by simp [Change.reply, Change.name, present])
          (by simp [Change.effect, Change.name, present])
          (by simp [Change.name, present, marks, marked])
  | setLink name link =>
    rw [perform, setLink?]
    cases present : registry.get? name with
    | none =>
      exact .unchanged (by simp [Change.reply, Change.name, present])
        (by simp [Change.effect, Change.name, present])
    | some record =>
      exact .updated (by simp [Change.reply, Change.name, present])
        (by simp [Change.effect, Change.name, present])
        (by simp [Change.name, present, marks])
  | remove name =>
    rw [perform, remove?]
    cases present : registry.get? name with
    | none =>
      exact .unchanged (by simp [Change.reply, Change.name, present])
        (by simp [Change.effect, Change.name, present])
    | some record =>
      have gone : ∀ count other, get? ⟨registry.records.erase name, count⟩ other =
          if other = name then none else registry.get? other :=
        get?_erase_records registry name
      exact {
        reply := by simp [replyRemoved, Change.reply, Change.name, present]
        record := by simp [replyRemoved, gone, Change.effect, Change.name]
        others := fun other different => by
          rw [replyRemoved, gone]
          exact if_neg different
        count := fun bound => by
          simp only [Change.name, present] at bound ⊢
          simp only [replyRemoved, gone, if_true]
          cases marked : record.marked <;> simp_all [marks] }

/-- A change has its effect on the record of its name and none on the others. -/
theorem get?_perform (registry : Registry) (change : Change) (name : String) :
    (registry.perform change).2.get? name =
      if change.name = name then change.effect (registry.get? name) else registry.get? name := by
  have done := performs registry change
  split
  · next same => rw [← same, done.record]
  · next different => rw [done.others name (Ne.symm different)]

/-! ### What holds after any changes -/

/-- Without changes nothing happens. -/
theorem run_nil (registry : Registry) : registry.run [] = registry :=
  rfl

/-- The first change is performed first. -/
theorem run_cons (registry : Registry) (change : Change) (rest : List Change) :
    registry.run (change :: rest) = (registry.perform change).2.run rest :=
  rfl

/-- Changes that follow each other are performed one part after the other. -/
theorem run_append (registry : Registry) (first second : List Change) :
    registry.run (first ++ second) = (registry.run first).run second :=
  List.foldl_append

/-- What changes keep of a registry. -/
structure WellFormed (registry : Registry) : Prop where
  /-- The count of marks is right. -/
  counted : registry.Counted
  /-- Every record stands under its own name. -/
  own_name : ∀ name record, registry.get? name = some record → record.name = name
  /-- No record stands under the empty name. -/
  named : registry.get? "" = none

/-- The empty registry is well formed. -/
theorem wellFormed_empty : empty.WellFormed where
  counted := by
    rw [Counted, countMarked_eq]
    rfl
  own_name name record found := by
    rw [get?_empty] at found
    cases found
  named := get?_empty ""

/-- Every change keeps the count of the marks right. -/
theorem counted_perform {registry : Registry} (counted : registry.Counted) (change : Change) :
    (registry.perform change).2.Counted := by
  have done := performs registry change
  have records := countMarked_update done.others
  have count := done.count (marks_le_markCount counted change.name)
  rw [Counted] at counted ⊢
  omega

/-- Every change leaves a well-formed registry behind. -/
theorem wellFormed_perform {registry : Registry} (wellFormed : registry.WellFormed)
    (change : Change) : (registry.perform change).2.WellFormed := by
  have done := performs registry change
  have own : ∀ old, registry.get? change.name = some old → old.name = change.name :=
    wellFormed.own_name change.name
  have named : change.name = "" → registry.get? change.name = none := fun empty => by
    rw [empty, wellFormed.named]
  constructor
  · exact counted_perform wellFormed.counted change
  · intro name record found
    rw [get?_perform] at found
    split at found
    · next same =>
      subst same
      exact (Change.name_of_effect own named found).1
    · exact wellFormed.own_name name record found
  · rw [get?_perform, wellFormed.named]
    split
    · next empty =>
      rw [Option.eq_none_iff_forall_ne_some]
      intro record left
      have named' : change.name ≠ "" := (Change.name_of_effect (by simp) (fun _ => rfl) left).2
      exact named' empty
    · rfl

/-- Every sequence of changes leaves a well-formed registry behind. -/
theorem wellFormed_run {registry : Registry} (wellFormed : registry.WellFormed)
    (changes : List Change) : (registry.run changes).WellFormed := by
  induction changes generalizing registry with
  | nil => exact wellFormed
  | cons change rest ih => exact ih (wellFormed_perform wellFormed change)

/-- The records are as many as the size says. -/
theorem length_toList (registry : Registry) : registry.toList.length = registry.size := by
  rw [toList, List.length_map, Std.ExtTreeMap.length_toList, size]

/-- The records that are listed are those that a lookup finds. -/
theorem WellFormed.mem_toList_iff {registry : Registry} (wellFormed : registry.WellFormed)
    {record : Record} : record ∈ registry.toList ↔ registry.get? record.name = some record := by
  rw [toList, List.mem_map]
  constructor
  · rintro ⟨⟨name, _⟩, listed, rfl⟩
    have found := Std.ExtTreeMap.mem_toList_iff_getElem?_eq_some.mp listed
    have own := wellFormed.own_name name _ found
    dsimp only at own ⊢
    rw [own]
    exact found
  · intro found
    exact ⟨(record.name, record), Std.ExtTreeMap.mem_toList_iff_getElem?_eq_some.mpr found, rfl⟩

/-- What a lookup finds is the listed record of the name. -/
theorem WellFormed.get?_eq_some_iff {registry : Registry} (wellFormed : registry.WellFormed)
    {name : String} {record : Record} :
    registry.get? name = some record ↔ record ∈ registry.toList ∧ record.name = name := by
  rw [wellFormed.mem_toList_iff]
  constructor
  · intro found
    have own := wellFormed.own_name name record found
    exact ⟨own.symm ▸ found, own⟩
  · intro listed
    exact listed.2 ▸ listed.1

/-- What holds of every registry that a caller can come to, in terms of what a caller sees. -/
structure Consistent (registry : Registry) : Prop where
  /-- The count of marks is the number of marked records, -/
  counted : registry.markCount = (registry.toList.filter Record.marked).length
  /-- so it is at most the number of records. -/
  bounded : registry.markCount ≤ registry.size
  /-- Every record stands under its own name. -/
  own_name : ∀ name record, registry.get? name = some record → record.name = name
  /-- No record has an empty name. -/
  named : ∀ record ∈ registry.toList, record.name ≠ ""
  /-- No two records have the same name. -/
  distinct : (registry.toList.map Record.name).Nodup

/-- What callers rely on follows from what changes keep. -/
theorem WellFormed.consistent {registry : Registry} (wellFormed : registry.WellFormed) :
    registry.Consistent where
  counted := by rw [wellFormed.counted, countMarked, List.countP_eq_length_filter]
  bounded := by
    rw [wellFormed.counted, countMarked, ← length_toList]
    exact List.countP_le_length
  own_name := wellFormed.own_name
  named record listed empty := by
    have found := wellFormed.mem_toList_iff.mp listed
    rw [empty, wellFormed.named] at found
    cases found
  distinct := by
    have keys : registry.toList.map Record.name = registry.records.keys := by
      rw [← Std.ExtTreeMap.map_fst_toList_eq_keys, toList, List.map_map]
      refine List.map_congr_left fun entry listed => ?_
      exact wellFormed.own_name _ _ (Std.ExtTreeMap.mem_toList_iff_getElem?_eq_some.mp listed)
    rw [keys]
    exact Std.ExtTreeMap.nodup_keys

/-- Setting a mark is a change. -/
theorem mark_eq_perform (registry : Registry) (name : String) :
    registry.mark name = (registry.perform (.mark name)).2 := by
  rw [mark, perform]
  cases registry.mark? name <;> rfl

/-- A change that leaves the record of its name leaves everything. -/
theorem perform_eq_self {registry : Registry} (counted : registry.Counted) {change : Change}
    (same : change.effect (registry.get? change.name) = registry.get? change.name) :
    (registry.perform change).2 = registry := by
  have done := performs registry change
  have count := done.count (marks_le_markCount counted change.name)
  rw [done.record, same] at count
  refine ext_get? (fun name => ?_) (Nat.add_right_cancel count)
  rw [get?_perform]
  split
  · next here => rw [← here, same]
  · rfl

end Registry

open Registry

/-! ### Marks of many symbols -/

/-- Marking the records of symbols is a run of changes. -/
theorem markAll_eq_run (registry : Registry) (symbols : List GlobalSymbol) :
    markAll registry symbols = registry.run (symbols.map fun symbol => .mark symbol.name) := by
  rw [markAll, run, List.foldl_map]
  simp only [mark_eq_perform]

/-- Marks of symbols leave a well-formed registry behind. -/
theorem wellFormed_markAll {registry : Registry} (wellFormed : registry.WellFormed)
    (symbols : List GlobalSymbol) : (markAll registry symbols).WellFormed := by
  rw [markAll_eq_run]
  exact wellFormed_run wellFormed _

end KernelExports
