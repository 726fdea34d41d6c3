import KernelExports.Proofs.ConfirmationOrder
import KernelExports.Proofs.SymbolItems

/-!
# What a confirmation marks

A symbol backs a record if it has its name and no symbol before it has a name that cannot be read. A
confirmation marks the records that are backed, also where it fails, and changes nothing else. The
number that it gives is a difference of two counts of marks; it is the number of backed records that
were not marked before, however often and in whatever order the symbols name them.
-/

namespace KernelExports

namespace ElfFile

/-- A symbol of the file has the name, and no symbol before it has a name that cannot be read. -/
def Backs (file : ElfFile) (name : String) : Prop :=
  ∃ (before : List GlobalSymbol) (symbol : GlobalSymbol)
    (after : List (Except Malformation GlobalSymbol)),
    file.globalSymbols = .ok (before.map .ok ++ .ok symbol :: after) ∧ symbol.name = name

/-- The file has symbols, and all of them have names that can be read. -/
def AllReadable (file : ElfFile) : Prop :=
  ∃ items, file.globalSymbols = .ok items ∧ ∀ item ∈ items, ∃ symbol, item = .ok symbol

/-- The first error that comes up when the symbols of the file are walked over. -/
inductive FirstFailure (file : ElfFile) : Error → Prop where
  /-- There are no symbols to walk over. -/
  | symbols {error : Error} (failed : file.globalSymbols = .error error) : FirstFailure file error
  /-- There is a symbol whose name cannot be read, and it is the first one. -/
  | item {fault : Malformation} (before : List GlobalSymbol)
    (after : List (Except Malformation GlobalSymbol))
    (items : file.globalSymbols = .ok (before.map .ok ++ .error fault :: after)) :
    FirstFailure file (.malformed fault)

/-- A file backs the names of the symbols that come before its first fault. -/
theorem backs_iff {file : ElfFile} {name : String} :
    file.Backs name ↔ ∃ symbol ∈ file.confirming, symbol.name = name := by
  rw [Backs, confirming]
  cases file.globalSymbols with
  | error error => simp
  | ok items =>
    simp only [Except.ok.injEq, mem_beforeError_iff]
    constructor
    · rintro ⟨before, symbol, after, split, named⟩
      exact ⟨symbol, ⟨before, after, split⟩, named⟩
    · rintro ⟨symbol, ⟨before, after, split⟩, named⟩
      exact ⟨before, symbol, after, split, named⟩

/-- There is no failure exactly if every symbol can be read. -/
theorem confirmFailure?_eq_none_iff {file : ElfFile} :
    file.confirmFailure? = none ↔ file.AllReadable := by
  rw [confirmFailure?, AllReadable]
  cases file.globalSymbols with
  | error error => simp
  | ok items => simp [firstError?_eq_none_iff]

/-- Otherwise the failure is the first one. -/
theorem confirmFailure?_eq_some_iff {file : ElfFile} {error : Error} :
    file.confirmFailure? = some error ↔ file.FirstFailure error := by
  rw [confirmFailure?]
  constructor
  · intro failure
    split at failure
    · next failed =>
      cases failure
      exact .symbols failed
    · next items given =>
      obtain ⟨fault, first, rfl⟩ := Option.map_eq_some_iff.mp failure
      obtain ⟨before, after, rfl⟩ := firstError?_eq_some_iff.mp first
      exact .item before after given
  · rintro (failed | ⟨before, after, given⟩)
    · rw [failed]
    · rw [given]
      dsimp only
      rw [firstError?_eq_some_iff.mpr ⟨before, after, rfl⟩]
      rfl

end ElfFile

namespace Registry

/-- If every name keeps its record but for a change that leaves names alone, the records that are
listed are the changed ones. -/
theorem WellFormed.toList_perm_map {registry changed : Registry}
    (wellFormed : registry.WellFormed) (wellFormed' : changed.WellFormed) {change : Record → Record}
    (keeps : ∀ record, (change record).name = record.name)
    (same : ∀ name, changed.get? name = (registry.get? name).map change) :
    changed.toList.Perm (registry.toList.map change) := by
  have nodup : changed.toList.Nodup := .of_map _ wellFormed'.consistent.distinct
  have names : (registry.toList.map change).map Record.name = registry.toList.map Record.name := by
    rw [List.map_map]
    exact List.map_congr_left fun record _ => keeps record
  have nodup' : (registry.toList.map change).Nodup :=
    .of_map Record.name (names ▸ wellFormed.consistent.distinct)
  rw [List.perm_ext_iff_of_nodup nodup nodup']
  intro record
  rw [wellFormed'.mem_toList_iff, same, Option.map_eq_some_iff, List.mem_map]
  constructor
  · rintro ⟨old, found, rfl⟩
    rw [keeps] at found
    exact ⟨old, wellFormed.mem_toList_iff.mpr found, rfl⟩
  · rintro ⟨old, listed, rfl⟩
    rw [keeps]
    exact ⟨old, wellFormed.mem_toList_iff.mp listed, rfl⟩

/-- The records that a second property adds to those with a first one. -/
theorem countP_or (first second : Record → Bool) (records : List Record) :
    records.countP (fun record => first record || second record) =
      records.countP first + records.countP fun record => !first record && second record := by
  induction records with
  | nil => rfl
  | cons record rest ih =>
    simp only [List.countP_cons, ih]
    cases first record <;> cases second record <;> simp <;> omega

/-- The record, marked if one of the symbols has its name. -/
def markedBy (symbols : List GlobalSymbol) (record : Record) : Record :=
  { record with
    marked := record.marked || decide (∃ symbol ∈ symbols, symbol.name = record.name) }

/-- Whether one of the symbols has the name of the record, and it is not marked yet. -/
def newlyMarkedBy (symbols : List GlobalSymbol) (record : Record) : Bool :=
  !record.marked && decide (∃ symbol ∈ symbols, symbol.name = record.name)

/-- Marking symbols adds as many marks as there are records that they name and that are not marked
yet. -/
theorem WellFormed.markCount_markAll {registry : Registry} (wellFormed : registry.WellFormed)
    (symbols : List GlobalSymbol) :
    (markAll registry symbols).markCount =
      registry.markCount + registry.toList.countP (newlyMarkedBy symbols) := by
  have wellFormed' := wellFormed_markAll wellFormed symbols
  have same : ∀ name, (markAll registry symbols).get? name =
      (registry.get? name).map (markedBy symbols) := by
    intro name
    rw [get?_markAll]
    refine Option.map_congr fun record found => ?_
    rw [markedBy, wellFormed.own_name name record found]
  have keeps : ∀ record, (markedBy symbols record).name = record.name := fun _ => rfl
  have changed := wellFormed.toList_perm_map wellFormed' keeps same
  rw [wellFormed'.counted, wellFormed.counted, countMarked, countMarked, changed.countP_eq,
    List.countP_map]
  exact countP_or _ _ registry.toList

/-- The records that a confirmation against a file marks newly. -/
def newlyBacked (registry : Registry) (file : ElfFile) : Set Record :=
  {record | record ∈ registry.toList ∧ record.marked = false ∧ file.Backs record.name}

/-- The newly backed names are counted by the records that are newly marked. -/
theorem WellFormed.ncard_newlyBacked {registry : Registry} (wellFormed : registry.WellFormed)
    (file : ElfFile) :
    (registry.newlyBacked file).ncard =
      registry.toList.countP (newlyMarkedBy file.confirming) := by
  have nodup : registry.toList.Nodup := .of_map _ wellFormed.consistent.distinct
  have members : registry.newlyBacked file =
      (registry.toList.filter (newlyMarkedBy file.confirming)).toFinset := by
    ext record
    simp [newlyBacked, newlyMarkedBy, ElfFile.backs_iff]
  rw [members, Set.ncard_coe_finset, List.toFinset_card_of_nodup (nodup.filter _),
    List.countP_eq_length_filter]

/-- What a confirmation of the records of a registry against a file gives, and the registry that it
leaves. -/
structure MarksBacked (registry : Registry) (file : ElfFile) (given : Except Error Nat)
    (left : Registry) : Prop where
  /-- No name comes or goes. -/
  names : ∀ name, left.contains name = registry.contains name
  /-- A record keeps its name, its value and its link. It is marked if it was marked before or is
  backed by the file, also where the confirmation fails. -/
  records : ∀ name old new, registry.get? name = some old → left.get? name = some new →
    new.name = old.name ∧ new.value = old.value ∧ new.link = old.link ∧
      (new.marked = true ↔ old.marked = true ∨ file.Backs name)
  /-- The count of marks grows by the number of records that are marked newly. -/
  growth : left.markCount = registry.markCount + (registry.newlyBacked file).ncard
  /-- This is the number that is given, if all symbols can be read. -/
  succeeds_iff : ∀ count, given = .ok count ↔
    file.AllReadable ∧ count = (registry.newlyBacked file).ncard
  /-- Otherwise the first error is given. -/
  fails_iff : ∀ error, given = .error error ↔ file.FirstFailure error

/-- A confirmation marks the records that the file backs and leaves everything else as it is. It
gives the number of newly marked records exactly if all symbols of the file can be read, and the
first error otherwise. -/
theorem confirm_marks_backed {registry : Registry} (reachable : registry.Reachable)
    (file : ElfFile) :
    registry.MarksBacked file (confirm file registry).1 (confirm file registry).2 := by
  have wellFormed := reachable.wellFormed
  have growth : (markAll registry file.confirming).markCount =
      registry.markCount + (registry.newlyBacked file).ncard := by
    rw [wellFormed.markCount_markAll, wellFormed.ncard_newlyBacked]
  rw [confirm_eq_markAll]
  exact {
    names := fun name => by
      rw [contains, contains, get?_markAll, Option.isSome_map]
    records := fun name old new before after => by
      rw [get?_markAll, before, Option.map_some, Option.some.injEq] at after
      subst after
      refine ⟨rfl, rfl, rfl, ?_⟩
      rw [Bool.or_eq_true, decide_eq_true_eq, ElfFile.backs_iff]
    growth := growth
    succeeds_iff := fun count => by
      have difference : (markAll registry file.confirming).markCount - registry.markCount =
          (registry.newlyBacked file).ncard := by
        rw [growth, Nat.add_sub_cancel_left]
      rw [← ElfFile.confirmFailure?_eq_none_iff, difference]
      cases file.confirmFailure? with
      | none => simp [eq_comm]
      | some error => simp
    fails_iff := fun error => by
      rw [← ElfFile.confirmFailure?_eq_some_iff]
      cases file.confirmFailure? with
      | none => simp
      | some failure => simp }

/-- A symbol that is repeated counts once. The mark that is set before a name that cannot be read
stays. -/
theorem threeRecords_backed :
    threeRecords.Reachable ∧
    threeRecords.MarksBacked (namingFile [1, 3, 1]) (.ok 2)
      (((threeRecords.mark "a").mark "b").mark "a") ∧
    threeRecords.MarksBacked Machine.partlyNamed (.error (.malformed (.symbolNameOffset 9 3)))
      (threeRecords.mark "b") := by
  have reachable : threeRecords.Reachable :=
    ⟨empty, [.change (.insert "a" 0), .change (.insert "b" 1), .change (.insert "c" 2)], .empty,
      rfl⟩
  have repeated : (namingFile [1, 3, 1]).globalSymbols = .ok
      [.ok ⟨"a", 0x40, .global⟩, .ok ⟨"b", 0x40, .global⟩, .ok ⟨"a", 0x40, .global⟩] := by
    decide +kernel
  have partly : Machine.partlyNamed.globalSymbols = .ok
      [.ok ⟨"b", 0x40, .global⟩, .error (.symbolNameOffset 9 3)] := by decide +kernel
  have number : (confirm (namingFile [1, 3, 1]) threeRecords).1 = .ok 2 := by
    simp only [confirm, repeated]
    decide +kernel
  have first := confirm_marks_backed reachable (namingFile [1, 3, 1])
  have second := confirm_marks_backed reachable Machine.partlyNamed
  rw [number] at first
  rw [confirm, repeated] at first
  rw [confirm, partly] at second
  exact ⟨reachable, first, second⟩

end Registry

end KernelExports
