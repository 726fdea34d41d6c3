import KernelExports.Proofs.MachineRegistry

/-!
# Confirmation against several files

A confirmation marks the records of the symbols that a file names before the first symbol that
cannot be read, and what it marks does not depend on the marks that are there. So confirmations
against several files mark what any of them marks, in whatever order and however often the files are
taken. The numbers of newly marked records do depend on the order. Where no confirmation fails they
add up to the growth of the count of marks, and a file that has been dealt with before adds nothing.
-/

namespace KernelExports

namespace ElfFile

/-- The symbols that a confirmation marks. -/
def confirming (file : ElfFile) : List GlobalSymbol :=
  match file.globalSymbols with
  | .error _ => []
  | .ok items => beforeError items

/-- The reason why a confirmation does not come to an end. -/
def confirmFailure? (file : ElfFile) : Option Error :=
  match file.globalSymbols with
  | .error error => some error
  | .ok items => (firstError? items).map .malformed

end ElfFile

/-- A confirmation marks the symbols of the file, and fails because of the file or not at all. -/
theorem confirm_eq_markAll (file : ElfFile) (registry : Registry) :
    confirm file registry =
      (match file.confirmFailure? with
        | some error => .error error
        | none => .ok ((markAll registry file.confirming).markCount - registry.markCount),
      markAll registry file.confirming) := by
  rw [confirm, ElfFile.confirming, ElfFile.confirmFailure?]
  cases file.globalSymbols with
  | error error => rfl
  | ok items =>
    dsimp only
    cases firstError? items <;> rfl

/-- Marks that are set in two rounds are those of both lists, one behind the other. -/
theorem markAll_append (registry : Registry) (first second : List GlobalSymbol) :
    markAll registry (first ++ second) = markAll (markAll registry first) second :=
  List.foldl_append

namespace Registry

/-- A registry is determined by the records that a lookup finds. -/
theorem WellFormed.ext {first second : Registry} (wellFormed : first.WellFormed)
    (wellFormed' : second.WellFormed) (same : ∀ name, first.get? name = second.get? name) :
    first = second := by
  have records : first.records = second.records := Std.ExtTreeMap.ext_getElem? same
  have count : first.markCount = second.markCount := by
    rw [wellFormed.counted, wellFormed'.counted, countMarked_eq, countMarked_eq, records]
  exact ext_get? same count

/-- Which records are marked depends on nothing but the names of the symbols. -/
theorem WellFormed.markAll_congr {registry : Registry} (wellFormed : registry.WellFormed)
    {symbols symbols' : List GlobalSymbol}
    (same : ∀ name, (∃ symbol ∈ symbols, symbol.name = name) ↔
      ∃ symbol ∈ symbols', symbol.name = name) :
    markAll registry symbols = markAll registry symbols' := by
  refine (wellFormed_markAll wellFormed symbols).ext (wellFormed_markAll wellFormed symbols') ?_
  intro name
  rw [get?_markAll, get?_markAll]
  simp only [same]

/-- Symbols that have been marked change nothing when they are marked again. -/
theorem WellFormed.markAll_again {registry : Registry} (wellFormed : registry.WellFormed)
    {marked again : List GlobalSymbol} (subset : again ⊆ marked) :
    markAll (markAll registry marked) again = markAll registry marked := by
  rw [← markAll_append]
  refine wellFormed.markAll_congr fun name => ?_
  constructor
  · rintro ⟨symbol, listed, named⟩
    rcases List.mem_append.mp listed with first | second
    · exact ⟨symbol, first, named⟩
    · exact ⟨symbol, subset second, named⟩
  · rintro ⟨symbol, listed, named⟩
    exact ⟨symbol, List.mem_append_left _ listed, named⟩

/-- Confirms the records against one file after the other. There is a result for each file, and a
failure keeps nothing from going on. -/
def confirmEach (registry : Registry) : List ElfFile → List (Except Error Nat) × Registry
  | [] => ([], registry)
  | file :: rest =>
    let (result, marked) := confirm file registry
    let (results, last) := marked.confirmEach rest
    (result :: results, last)

/-- In the end all symbols of all files are marked. -/
theorem confirmEach_snd (registry : Registry) (files : List ElfFile) :
    (registry.confirmEach files).2 = markAll registry (files.flatMap ElfFile.confirming) := by
  induction files generalizing registry with
  | nil => rfl
  | cons file rest ih =>
    rw [List.flatMap_cons, markAll_append, ← ih, confirmEach, confirm_eq_markAll]

/-- Each result is that of the confirmation of what the files before it have left. -/
theorem getElem?_confirmEach (registry : Registry) (files : List ElfFile) (index : Nat) :
    (registry.confirmEach files).1[index]? =
      files[index]?.map fun file =>
        (confirm file (registry.confirmEach (files.take index)).2).1 := by
  induction files generalizing registry index with
  | nil => rfl
  | cons file rest ih =>
    cases index with
    | zero => rfl
    | succ index =>
      rw [confirmEach, List.getElem?_cons_succ, List.getElem?_cons_succ, ih, List.take_succ_cons]
      rfl

/-- What the results tell where no confirmation fails. -/
structure Tallies (registry : Registry) (files : List ElfFile) (counts : List Nat) : Prop where
  /-- They are numbers of newly marked records, -/
  results : (registry.confirmEach files).1 = counts.map .ok
  /-- by which the count of marks has grown altogether. -/
  growth : registry.markCount + counts.sum = (registry.confirmEach files).2.markCount

/-- The numbers of newly marked records add up to the growth of the count. -/
theorem exists_tallies (registry : Registry) {files : List ElfFile}
    (readable : ∀ file ∈ files, file.confirmFailure? = none) :
    ∃ counts, registry.Tallies files counts := by
  induction files generalizing registry with
  | nil => exact ⟨[], rfl, rfl⟩
  | cons file rest ih =>
    obtain ⟨first, others⟩ := List.forall_mem_cons.mp readable
    obtain ⟨counts, results, growth⟩ := ih (markAll registry file.confirming) others
    have grown := markCount_le_markAll registry file.confirming
    have confirmation : confirm file registry =
        (.ok ((markAll registry file.confirming).markCount - registry.markCount),
          markAll registry file.confirming) := by
      rw [confirm_eq_markAll, first]
    refine ⟨((markAll registry file.confirming).markCount - registry.markCount) :: counts, ?_, ?_⟩
    · rw [confirmEach, confirmation]
      dsimp only
      rw [results, List.map_cons]
    · rw [confirmEach, confirmation]
      dsimp only
      rw [← growth, List.sum_cons]
      omega

/-- A file against which the records have been confirmed marks nothing any more. -/
theorem WellFormed.confirm_again {registry : Registry} (wellFormed : registry.WellFormed)
    {files : List ElfFile} {file : ElfFile} (listed : file ∈ files)
    (readable : file.confirmFailure? = none) :
    confirm file (registry.confirmEach files).2 = (.ok 0, (registry.confirmEach files).2) := by
  have marked : file.confirming ⊆ files.flatMap ElfFile.confirming := fun symbol named =>
    List.mem_flatMap.mpr ⟨file, listed, named⟩
  rw [confirm_eq_markAll, readable, confirmEach_snd, wellFormed.markAll_again marked, Nat.sub_self]

/-- Where a number is given there is no failure. -/
theorem confirmFailure?_of_result {registry : Registry} {file : ElfFile} {newly : Nat}
    (confirmed : (confirm file registry).1 = .ok newly) : file.confirmFailure? = none := by
  rw [confirm_eq_markAll] at confirmed
  cases failed : file.confirmFailure? with
  | none => rfl
  | some error =>
    rw [failed] at confirmed
    cases confirmed

/-- A result of a run of confirmations is that of one of the files. -/
theorem confirmFailure?_of_getElem? {registry : Registry} {files : List ElfFile} {file : ElfFile}
    {index newly : Nat} (stands : files[index]? = some file)
    (confirmed : (registry.confirmEach files).1[index]? = some (.ok newly)) :
    file.confirmFailure? = none := by
  rw [getElem?_confirmEach, stands, Option.map_some, Option.some.injEq] at confirmed
  exact confirmFailure?_of_result confirmed

/-- The order of the files against which a registry is confirmed, and how often each is taken, make
no difference to the registry that is left, even where some of the confirmations fail midway. If
none fails, the numbers of newly marked records add up to the growth of the count of marks. A file
against which the records have been confirmed before marks nothing any more. -/
theorem confirmEach_unordered {registry : Registry} (reachable : registry.Reachable)
    {files files' : List ElfFile} (same : ∀ file, file ∈ files ↔ file ∈ files') :
    (registry.confirmEach files).2 = (registry.confirmEach files').2 ∧
    ((∀ result ∈ (registry.confirmEach files).1, ∃ newly, result = .ok newly) →
      ∃ counts counts', registry.Tallies files counts ∧ registry.Tallies files' counts') ∧
    ∀ earlier later newly, earlier < later → later < files.length →
      files[earlier]? = files[later]? →
      (registry.confirmEach files).1[earlier]? = some (.ok newly) →
        (registry.confirmEach files).1[later]? = some (.ok 0) := by
  have wellFormed := reachable.wellFormed
  refine ⟨?_, ?_, ?_⟩
  · rw [confirmEach_snd, confirmEach_snd]
    refine wellFormed.markAll_congr fun name => ?_
    simp only [List.mem_flatMap, same]
  · intro succeed
    have readable : ∀ file ∈ files, file.confirmFailure? = none := by
      intro file listed
      obtain ⟨index, stands⟩ := List.mem_iff_getElem?.mp listed
      have result := getElem?_confirmEach registry files index
      rw [stands, Option.map_some] at result
      obtain ⟨newly, confirmed⟩ := succeed _ (List.mem_of_getElem? result)
      exact confirmFailure?_of_result confirmed
    have readable' : ∀ file ∈ files', file.confirmFailure? = none := fun file listed =>
      readable file ((same file).mpr listed)
    obtain ⟨counts, tallies⟩ := exists_tallies registry readable
    obtain ⟨counts', tallies'⟩ := exists_tallies registry readable'
    exact ⟨counts, counts', tallies, tallies'⟩
  · intro earlier later newly before inside repeated confirmed
    have stands : files[later]? = some files[later] := List.getElem?_eq_getElem inside
    have stands' : files[earlier]? = some files[later] := repeated.trans stands
    have taken : files[later] ∈ files.take later :=
      List.mem_of_getElem? (by rw [List.getElem?_take_of_lt before, stands'])
    have readable := confirmFailure?_of_getElem? stands' confirmed
    rw [getElem?_confirmEach, stands, Option.map_some,
      wellFormed.confirm_again taken readable]

/-- A file with global symbols whose names stand at the given places of a string table, where `a`
stands at 1 and `b` at 3. -/
def namingFile (places : List UInt32) : ElfFile where
  path := "naming.ko"
  bytes := ((⟨0, 0, 0, 0, 0, 0⟩ :: places.map fun place =>
    (⟨place, 0x10, 0, 1, 0x40, 8⟩ : SymbolRecord)).flatMap Layout.toBytes).toByteArray
  header := FileHeader.ofBytes []
  sections := ⟨[SectionHeader.ofBytes [],
      ⟨0, 2, 0, 0, 0, UInt64.ofNat (24 * (places.length + 1)), 0, 0, 0, 24⟩],
    (Utf8.encode symbolSection ++ [0]).toByteArray⟩
  symbolNames := some ⟨#[0, 0x61, 0, 0x62, 0]⟩

/-- Three records. -/
def threeRecords : Registry :=
  empty.served [.change (.insert "a" 0), .change (.insert "b" 1), .change (.insert "c" 2)]

/-- The order decides which confirmation is the one that marks a record, but not which records are
marked in the end, also where a file has a symbol without a readable name behind the others. -/
theorem confirmEach_threeRecords :
    threeRecords.Reachable ∧
    (threeRecords.confirmEach [namingFile [1, 3], namingFile [3], namingFile [1, 3]]).2 =
      (threeRecords.confirmEach [namingFile [3], namingFile [1, 3]]).2 ∧
    (∃ counts counts',
      threeRecords.Tallies [namingFile [1, 3], namingFile [3], namingFile [1, 3]] counts ∧
      threeRecords.Tallies [namingFile [3], namingFile [1, 3]] counts') ∧
    (confirm (namingFile [1, 3]) threeRecords).1 = .ok 2 ∧
    (confirm (namingFile [3]) threeRecords).1 = .ok 1 ∧
    (threeRecords.confirmEach [namingFile [1, 3], namingFile [3], namingFile [1, 3]]).1[2]? =
      some (.ok 0) ∧
    (threeRecords.confirmEach [Machine.partlyNamed, namingFile [1], namingFile [1]]).2 =
      (threeRecords.confirmEach [namingFile [1], Machine.partlyNamed]).2 := by
  have reachable : threeRecords.Reachable :=
    ⟨empty, [.change (.insert "a" 0), .change (.insert "b" 1), .change (.insert "c" 2)], .empty,
      rfl⟩
  have both : (namingFile [1, 3]).globalSymbols =
      .ok [.ok ⟨"a", 0x40, .global⟩, .ok ⟨"b", 0x40, .global⟩] := by decide +kernel
  have one : (namingFile [3]).globalSymbols = .ok [.ok ⟨"b", 0x40, .global⟩] := by decide +kernel
  have first : (confirm (namingFile [1, 3]) threeRecords).1 = .ok 2 := by
    simp only [confirm, both]
    decide +kernel
  have first' : (confirm (namingFile [3]) threeRecords).1 = .ok 1 := by
    simp only [confirm, one]
    decide +kernel
  have readable : ∀ file ∈ [namingFile [1, 3], namingFile [3], namingFile [1, 3]],
      file.confirmFailure? = none := by
    simp [ElfFile.confirmFailure?, both, one, firstError?]
  have same : ∀ file, file ∈ [namingFile [1, 3], namingFile [3], namingFile [1, 3]] ↔
      file ∈ [namingFile [3], namingFile [1, 3]] := by
    simp only [List.mem_cons, List.not_mem_nil, or_false]
    tauto
  have same' : ∀ file, file ∈ [Machine.partlyNamed, namingFile [1], namingFile [1]] ↔
      file ∈ [namingFile [1], Machine.partlyNamed] := by
    simp only [List.mem_cons, List.not_mem_nil, or_false]
    tauto
  obtain ⟨left, tallied, again⟩ := confirmEach_unordered reachable same
  obtain ⟨partly, -, -⟩ := confirmEach_unordered reachable same'
  have succeed : ∀ result ∈ (threeRecords.confirmEach
      [namingFile [1, 3], namingFile [3], namingFile [1, 3]]).1, ∃ newly, result = .ok newly := by
    obtain ⟨numbers, tallies⟩ := exists_tallies threeRecords readable
    rw [tallies.results]
    exact List.forall_mem_map.mpr fun number _ => ⟨number, rfl⟩
  have zero := again 0 2 2 (by decide) (by decide) rfl (congrArg some first)
  exact ⟨reachable, left, tallied succeed, first, first', zero, partly⟩

end Registry

end KernelExports
