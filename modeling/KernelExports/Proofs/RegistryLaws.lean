import Mathlib
import KernelExports.Extraction

/-!
# Laws of registries

What single operations do to the record of every name, and how the number of marked records follows
the records: if only the record of one name changes, that number changes by the mark of this record.
A registry is determined by the records that a lookup finds and by its count of marks.
-/

namespace KernelExports

namespace Registry

/-- Registries with the same records and the same count are the same. -/
theorem ext_get? {first second : Registry} (records : ∀ name, first.get? name = second.get? name)
    (count : first.markCount = second.markCount) : first = second := by
  obtain ⟨first, markCount⟩ := first
  obtain ⟨second, markCount'⟩ := second
  have same : first = second := Std.ExtTreeMap.ext_getElem? records
  rw [same]
  exact congrArg _ count

/-- There is nothing in the empty registry. -/
@[simp] theorem get?_empty (name : String) : empty.get? name = none :=
  Std.ExtTreeMap.getElem?_empty

/-- A record that is put in is found under its name, the others as before. -/
theorem get?_insert_records (registry : Registry) (name : String) (record : Record) (count : Nat)
    (other : String) :
    get? ⟨registry.records.insert name record, count⟩ other =
      if other = name then some record else registry.get? other := by
  rw [get?, get?, Std.ExtTreeMap.getElem?_insert]
  simp only [compare_eq_iff_eq, @eq_comm _ other name]

/-- A record that is taken out is not found any more, the others as before. -/
theorem get?_erase_records (registry : Registry) (name : String) (count : Nat) (other : String) :
    get? ⟨registry.records.erase name, count⟩ other =
      if other = name then none else registry.get? other := by
  rw [get?, get?, Std.ExtTreeMap.getElem?_erase]
  simp only [compare_eq_iff_eq, @eq_comm _ other name]

/-- A copy is added unless its name is empty or taken, and changes nothing but the record of its
name. -/
theorem insertCopy_eq_ok_iff {registry extended : Registry} {record : Record} :
    registry.insertCopy record = .ok extended ↔
      record.name ≠ "" ∧ registry.get? record.name = none ∧
        (∀ name, extended.get? name =
          if name = record.name then some { record with marked := false }
          else registry.get? name) ∧
        extended.markCount = registry.markCount := by
  rw [insertCopy, contains]
  by_cases empty : record.name = ""
  · simp [empty]
  · rw [if_neg empty]
    cases taken : registry.get? record.name with
    | some old => simp
    | none =>
      simp only [Option.isSome_none, Bool.false_eq_true, if_false, Except.ok.injEq, true_and]
      constructor
      · intro added
        rw [← added]
        exact ⟨empty, get?_insert_records registry _ _ _, rfl⟩
      · intro h
        obtain ⟨-, records, count⟩ := h
        have same : ∀ name,
            get? ⟨registry.records.insert record.name { record with marked := false },
              registry.markCount⟩ name = extended.get? name := by
          intro name
          rw [get?_insert_records, records]
        exact ext_get? same count.symm

/-- A name that is taken is not inserted again. -/
theorem insertCopy_duplicate {registry : Registry} {record old : Record}
    (named : record.name ≠ "") (taken : registry.get? record.name = some old) :
    registry.insertCopy record = .error (.duplicateSymbol record.name) := by
  rw [insertCopy, contains, if_neg named, taken]
  rfl

/-- Marking changes the mark of one record, if there is one. -/
theorem get?_mark (registry : Registry) (name other : String) :
    (registry.mark name).get? other =
      (registry.get? other).map fun record =>
        { record with marked := record.marked || decide (other = name) } := by
  rw [mark, mark?]
  by_cases same : other = name
  · subst same
    cases h : registry.get? other with
    | none => simp [h]
    | some record =>
      obtain ⟨_, _, marked, _⟩ := record
      cases marked <;> simp [h, get?_insert_records]
  · cases h : registry.get? name with
    | none => simp [same]
    | some record =>
      obtain ⟨_, _, marked, _⟩ := record
      cases marked <;> simp [same, get?_insert_records]

/-! ### The count of marks -/

/-- The records of all other names. -/
def othersOf (records : Std.ExtTreeMap String Record) (name : String) : List (String × Record) :=
  records.toList.filter fun entry => entry.1 ≠ name

/-- No entry is listed twice. -/
theorem nodup_toList (records : Std.ExtTreeMap String Record) : records.toList.Nodup := by
  have distinct := Std.ExtTreeMap.distinct_keys_toList (t := records)
  refine distinct.imp fun {first second} differ => ?_
  intro same
  rw [same] at differ
  exact differ Std.ReflCmp.compare_self

/-- No entry of another name is listed twice. -/
theorem nodup_othersOf (records : Std.ExtTreeMap String Record) (name : String) :
    (othersOf records name).Nodup :=
  (nodup_toList records).filter _

/-- The other entries are those of other names. -/
theorem mem_othersOf {records : Std.ExtTreeMap String Record} {name other : String}
    {record : Record} :
    (other, record) ∈ othersOf records name ↔ records[other]? = some record ∧ other ≠ name := by
  rw [othersOf, List.mem_filter, Std.ExtTreeMap.mem_toList_iff_getElem?_eq_some]
  simp

/-- The entries of a registry are that of one name and the others. -/
theorem toList_perm_of_get? {records : Std.ExtTreeMap String Record} {name : String}
    {record : Record} (found : records[name]? = some record) :
    records.toList.Perm ((name, record) :: othersOf records name) := by
  have fresh : (name, record) ∉ othersOf records name := fun member =>
    (mem_othersOf.mp member).2 rfl
  have nodup : ((name, record) :: othersOf records name).Nodup :=
    List.nodup_cons.mpr ⟨fresh, nodup_othersOf records name⟩
  rw [List.perm_ext_iff_of_nodup (nodup_toList records) nodup]
  intro entry
  obtain ⟨other, old⟩ := entry
  rw [List.mem_cons, mem_othersOf, Std.ExtTreeMap.mem_toList_iff_getElem?_eq_some, Prod.mk.injEq]
  by_cases same : other = name
  · subst same
    simp [found, eq_comm]
  · simp [same]

/-- Two registries with the same records of all other names have the same entries there. -/
theorem othersOf_perm {first second : Std.ExtTreeMap String Record} {name : String}
    (same : ∀ other, other ≠ name → first[other]? = second[other]?) :
    (othersOf first name).Perm (othersOf second name) := by
  rw [List.perm_ext_iff_of_nodup (nodup_othersOf _ name) (nodup_othersOf _ name)]
  intro entry
  obtain ⟨other, record⟩ := entry
  rw [mem_othersOf, mem_othersOf]
  refine and_congr_left fun different => ?_
  rw [same other different]

/-- The number of records that are marked. -/
def countMarked (registry : Registry) : Nat :=
  registry.toList.countP Record.marked

/-- The marked records are counted over the list of entries. -/
theorem countMarked_eq (registry : Registry) :
    registry.countMarked = registry.records.toList.countP fun entry => entry.2.marked := by
  rw [countMarked, toList, List.countP_map]
  rfl

/-- One if the record is there and marked. -/
def marks (record : Option Record) : Nat :=
  if record.any Record.marked then 1 else 0

/-- The count is that of the others and of the one under the name. -/
theorem countMarked_split (registry : Registry) (name : String) :
    registry.countMarked =
      (othersOf registry.records name).countP (fun entry => entry.2.marked) +
        marks (registry.get? name) := by
  rw [countMarked_eq, marks]
  cases found : registry.get? name with
  | some record =>
    rw [(toList_perm_of_get? found).countP_eq, List.countP_cons]
    rfl
  | none =>
    have all : othersOf registry.records name = registry.records.toList := by
      rw [othersOf, List.filter_eq_self]
      intro entry listed
      obtain ⟨other, record⟩ := entry
      rw [Std.ExtTreeMap.mem_toList_iff_getElem?_eq_some] at listed
      have different : other ≠ name := by
        intro same
        subst same
        rw [get?, listed] at found
        cases found
      exact decide_eq_true different
    rw [all]
    rfl

/-- If only the record of one name changes, the number of marked records changes with it. -/
theorem countMarked_update {first second : Registry} {name : String}
    (same : ∀ other, other ≠ name → second.get? other = first.get? other) :
    second.countMarked + marks (first.get? name) =
      first.countMarked + marks (second.get? name) := by
  rw [countMarked_split first name, countMarked_split second name,
    (othersOf_perm same).countP_eq]
  omega

/-- The count of marks is the number of marked records. -/
def Counted (registry : Registry) : Prop :=
  registry.markCount = registry.countMarked

/-- A marked record is among those that are counted. -/
theorem marks_le_markCount {registry : Registry} (counted : registry.Counted) (name : String) :
    marks (registry.get? name) ≤ registry.markCount := by
  rw [counted, countMarked_split registry name]
  omega

end Registry

open Registry

/-- The names of the given symbols are marked, and nothing else changes. -/
theorem get?_markAll (registry : Registry) (symbols : List GlobalSymbol) (name : String) :
    (markAll registry symbols).get? name =
      (registry.get? name).map fun record =>
        { record with
          marked := record.marked || decide (∃ symbol ∈ symbols, symbol.name = name) } := by
  rw [markAll]
  induction symbols generalizing registry with
  | nil => simp
  | cons symbol rest ih =>
    rw [List.foldl_cons, ih, get?_mark, Option.map_map]
    congr 1
    funext record
    simp [Bool.or_assoc, eq_comm]

end KernelExports
