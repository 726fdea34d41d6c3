import KernelExports.Proofs.ExportListing
import KernelExports.Proofs.SymbolItems

/-!
# What extraction finds

A registry comes out of a file exactly if each stage accepts its part of the bytes: the tables, the
list of exports with texts between its NUL bytes, and the symbol table with all names that matter.
The registry is then determined by the list of exports alone. Confirming extraction differs from
plain extraction in the marks only, which are those of the names in the symbol table.
-/

namespace KernelExports

open ExportNames

namespace ElfFile

/-- The file is long enough to be looked at and begins with the ELF magic. -/
def StartsLikeElf (bytes : ByteArray) : Prop :=
  16 ≤ bytes.size ∧ Placed bytes 0 magic

/-- Only a file that does not begin like an ELF file is refused as none. -/
theorem readHeader_eq_notElf_iff {bytes : ByteArray} :
    readHeader bytes = .error .notElf ↔ ¬ StartsLikeElf bytes := by
  have start : Placed bytes 0 magic ↔
      4 ≤ bytes.size ∧ (bytes.extract 0 4).data.toList = magic := by
    rw [Placed.iff_take_drop, toList_data_extract_append bytes 0 4]
    rfl
  rw [readHeader, StartsLikeElf, start]
  by_cases short : bytes.size < 16
  · rw [dif_pos short]
    simp [Nat.not_le.mpr short]
  · have enough : 16 ≤ bytes.size ∧ 4 ≤ bytes.size := by omega
    rw [dif_neg short]
    by_cases same : (bytes.extract 0 4).data.toList = magic
    · refine iff_of_false (fun h => ?_) (not_not_intro ⟨enough.1, enough.2, same⟩)
      rw [if_neg (not_not_intro same)] at h
      split at h
      · cases h
      · split at h
        · cases h
        · split at h
          · cases h
          · split at h <;> cases h
    · rw [if_pos same]
      exact iff_of_true rfl fun both => same both.2.2

/-- What is behind the header can only be malformed or stripped. -/
theorem ofBytes_eq_error_iff_readHeader (path : String) {bytes : ByteArray} {error : Error}
    (malformed : ∀ fault, error ≠ .malformed fault)
    (stripped : ∀ name, error ≠ .strippedSection name) :
    ofBytes path bytes = .error error ↔ readHeader bytes = .error error := by
  rw [ofBytes, readTables]
  cases readHeader bytes with
  | error error => simp
  | ok header =>
    dsimp only
    cases SectionTable.read bytes header with
    | error fault => simpa using (malformed fault).symm
    | ok table =>
      dsimp only
      cases found : findIn bytes table symbolNameSection with
      | ok names => simp
      | error other =>
        rcases findIn_error found with rfl | ⟨fault, rfl⟩
        · simpa using (stripped _).symm
        · simpa using (malformed fault).symm

/-- Only a file that does not begin like an ELF file is none. -/
theorem ofBytes_eq_notElf_iff (path : String) {bytes : ByteArray} :
    ofBytes path bytes = .error .notElf ↔ ¬ StartsLikeElf bytes := by
  rw [← readHeader_eq_notElf_iff]
  exact ofBytes_eq_error_iff_readHeader path (by simp) (by simp)

end ElfFile

/-- A file that is not ELF is none to extract from, and neither are the others opened. -/
theorem openElf_eq_none_iff {files : FileSystem} {path : String} :
    openElf files path = .ok none ↔
      ∃ bytes, files path = .ok bytes ∧ ¬ ElfFile.StartsLikeElf bytes := by
  rw [openElf, ElfFile.openAt]
  cases files path with
  | error reason => simp
  | ok bytes =>
    simp only [Except.ok.injEq, exists_eq_left', ← ElfFile.ofBytes_eq_notElf_iff path]
    split
    · next opened => simp [opened]
    · next other => simp [other]
    · next different other => simpa [other] using different

/-- A path leads to an ELF file if its content is opened as one. -/
theorem openElf_eq_some_iff {files : FileSystem} {path : String} {file : ElfFile} :
    openElf files path = .ok (some file) ↔
      ∃ bytes, files path = .ok bytes ∧ ElfFile.ofBytes path bytes = .ok file := by
  rw [openElf, ElfFile.openAt]
  cases files path with
  | error reason => simp
  | ok bytes =>
    simp only [Except.ok.injEq, exists_eq_left']
    split
    · next opened => simp [opened]
    · next other => simp [other]
    · next other => simp [other]

/-- Extraction succeeds exactly if the list of exports can be parsed and every symbol be read. -/
theorem extract_eq_some_iff {file : ElfFile} {registry : Registry} :
    extract file = .ok (some registry) ↔
      ∃ listing, file.Holds exportSection listing ∧ parse listing = .ok registry ∧
        ∃ items, file.globalSymbols = .ok items ∧ firstError? items = none := by
  rw [extract]
  simp only [ElfFile.holds_iff_find]
  constructor
  · intro h
    split at h
    · cases h
    · cases h
    · next listed found =>
      split at h
      · cases h
      · next parsed read =>
        split at h
        · cases h
        · next items symbols =>
          split at h
          · cases h
          · next readable =>
            cases h
            exact ⟨listed.data, ⟨listed, found, rfl⟩, read, items, symbols, readable⟩
  · intro h
    obtain ⟨_, ⟨listed, found, rfl⟩, read, items, symbols, readable⟩ := h
    rw [found]
    dsimp only
    rw [read]
    dsimp only
    rw [symbols]
    dsimp only
    rw [readable]

/-- Nothing is extracted exactly if there is no list of exports. -/
theorem extract_eq_none_iff {file : ElfFile} :
    extract file = .ok none ↔ file.sections.Lacks exportSection := by
  rw [← ElfFile.findIn_eq_none_iff]
  change _ ↔ file.find exportSection = .ok none
  rw [extract]
  constructor
  · intro h
    split at h
    · cases h
    · next missing => exact missing
    · split at h
      · cases h
      · split at h
        · cases h
        · split at h <;> cases h
  · intro h
    rw [h]

/-- The registry has one unmarked record without a link for each different segment and no other
record. Its value is the number of segments before the first one with these bytes. -/
structure Registry.HoldsFirst (registry : Registry) (segments : List Segment) : Prop where
  /-- The record of each name. -/
  record_iff : ∀ name record, registry.get? name = some record ↔
    (∃ segment ∈ segments, segment.bytes = Utf8.encode name) ∧
      record.name = name ∧
      record.value.toNat = (segments.map Segment.bytes).idxOf (Utf8.encode name) ∧
      record.marked = false ∧ record.link = none
  /-- Nothing is counted as marked. -/
  unmarked : registry.markCount = 0

/-- As long as all indices fit into a word, listing names is holding the first segments. -/
theorem lists_iff_holdsFirst {registry : Registry} {segments : List Segment}
    {names : List String} (texts : segments.map Segment.bytes = names.map Utf8.encode)
    (few : segments.length < addressCount) :
    registry.Lists names ↔ registry.HoldsFirst segments := by
  have member : ∀ name, (∃ segment ∈ segments, segment.bytes = Utf8.encode name) ↔
      name ∈ names := by
    intro name
    rw [← List.mem_map, texts, List.mem_map_of_injective fun _ _ => Utf8.encode_inj.mp]
  have index : ∀ name, (segments.map Segment.bytes).idxOf (Utf8.encode name) =
      names.idxOf name := by
    intro name
    rw [texts, Utf8.idxOf_map_encode]
  have short : names.length < addressCount := by
    have same := congrArg List.length texts
    rw [List.length_map, List.length_map] at same
    rwa [← same]
  constructor
  · intro lists
    refine ⟨fun name record => ?_, lists.unmarked⟩
    rw [lists.records, listedRecord_eq_some_iff short, member, index]
  · intro holds
    refine ⟨fun name => Option.ext fun record => ?_, holds.unmarked⟩
    rw [holds.record_iff, listedRecord_eq_some_iff short, member, index]

/-- The exports at a path are those of the ELF file there. -/
theorem readExports_eq_some_iff {files : FileSystem} {path : String} {registry : Registry} :
    readExports files path = .ok (some registry) ↔
      ∃ file, openElf files path = .ok (some file) ∧ extract file = .ok (some registry) := by
  rw [readExports]
  cases openElf files path with
  | error error => simp
  | ok opened => cases opened <;> simp

/-- There are none if the file is not ELF or lists none. -/
theorem readExports_eq_none_iff {files : FileSystem} {path : String} :
    readExports files path = .ok none ↔
      openElf files path = .ok none ∨
        ∃ file, openElf files path = .ok (some file) ∧ extract file = .ok none := by
  rw [readExports]
  cases openElf files path with
  | error error => simp
  | ok opened => cases opened <;> simp

/-- The confirmed registry has the records of the plain one, and exactly those marked whose names
are among the symbols. -/
structure Registry.Confirms (confirmed plain : Registry)
    (items : List (Except Malformation GlobalSymbol)) : Prop where
  /-- Names, values and links are the same. -/
  same : ∀ name,
    (confirmed.get? name).map (fun record => (record.name, record.value, record.link)) =
      (plain.get? name).map fun record => (record.name, record.value, record.link)
  /-- A record is marked if a symbol has its name. -/
  marked_iff : ∀ name record, confirmed.get? name = some record →
    (record.marked = true ↔ ∃ symbol, .ok symbol ∈ items ∧ symbol.name = name)
  /-- The plain registry has no marks. -/
  plain_unmarked : ∀ name record, plain.get? name = some record → record.marked = false
  /-- Its count says so. -/
  plain_count : plain.markCount = 0
  /-- The count of marks is the number of marked records. -/
  count : confirmed.markCount = (confirmed.toList.filter Record.marked).length

/-- What plain and confirming extraction may give for the same path. -/
inductive Agree (files : FileSystem) (path : String) :
    Except Error (Option Registry) → Except Error (Option Registry) → Prop
  /-- Both fail in the same way. -/
  | failed (error : Error) : Agree files path (.error error) (.error error)
  /-- Both find nothing to extract. -/
  | absent : Agree files path (.ok none) (.ok none)
  /-- Both extract from the same file. The confirmation of what was extracted succeeds. -/
  | extracted (file : ElfFile) (items : List (Except Malformation GlobalSymbol))
    (plain confirmed : Registry) (newly : Nat)
    (opened : ElfFile.openAt files path = .ok file)
    (extraction : extract file = .ok (some plain))
    (symbols : file.globalSymbols = .ok items)
    (confirmation : confirm file plain = (.ok newly, confirmed))
    (confirms : confirmed.Confirms plain items) :
    Agree files path (.ok (some plain)) (.ok (some confirmed))

/-- Confirming an extracted registry marks the names of the symbols. -/
theorem confirm_of_extract {file : ElfFile} {plain : Registry}
    (extraction : extract file = .ok (some plain)) :
    ∃ items newly confirmed, file.globalSymbols = .ok items ∧
      confirm file plain = (.ok newly, confirmed) ∧ confirmed.Confirms plain items := by
  obtain ⟨listing, -, parsed, items, symbols, clean⟩ := extract_eq_some_iff.mp extraction
  obtain ⟨-, names, -, lists⟩ := parse_eq_ok_iff.mp parsed
  have unmarked : ∀ name record, plain.get? name = some record → record.marked = false :=
    fun name record found => lists.marked_eq_false found
  have named : ∀ name, (∃ symbol ∈ beforeError items, symbol.name = name) ↔
      ∃ symbol, .ok symbol ∈ items ∧ symbol.name = name := by
    intro name
    conv => rhs; rw [← map_ok_beforeError clean]
    simp only [List.mem_map, Except.ok.injEq, exists_eq_right]
  have confirmation : confirm file plain =
      (.ok ((markAll plain (beforeError items)).markCount - plain.markCount),
        markAll plain (beforeError items)) := by
    rw [confirm, symbols]
    dsimp only
    rw [clean]
  have confirms : (markAll plain (beforeError items)).Confirms plain items :=
    { same := fun name => by
        rw [get?_markAll, Option.map_map]
        rfl
      marked_iff := fun name record found => by
        rw [get?_markAll, Option.map_eq_some_iff] at found
        obtain ⟨old, old_found, rfl⟩ := found
        simp only [unmarked name old old_found, Bool.false_or, decide_eq_true_eq]
        exact named name
      plain_unmarked := unmarked
      plain_count := lists.unmarked
      count := by
        rw [(wellFormed_markAll (wellFormed_of_parse parsed) _).counted, Registry.countMarked,
          List.countP_eq_length_filter] }
  exact ⟨items, _, _, symbols, confirmation, confirms⟩

/-- Plain and confirming extraction agree on every path. -/
theorem readExports_agree (files : FileSystem) (path : String) :
    Agree files path (readExports files path) (readConfirmedExports files path) := by
  rw [readExports, readConfirmedExports]
  cases found : openElf files path with
  | error error => exact .failed error
  | ok opened =>
    cases opened with
    | none => exact .absent
    | some file =>
      dsimp only
      cases extraction : extract file with
      | error error => exact .failed error
      | ok extracted =>
        cases extracted with
        | none => exact .absent
        | some plain =>
          obtain ⟨items, newly, confirmed, symbols, confirmation, confirms⟩ :=
            confirm_of_extract extraction
          dsimp only
          rw [confirmation]
          have opened : ElfFile.openAt files path = .ok file := by
            obtain ⟨bytes, content, opened⟩ := openElf_eq_some_iff.mp found
            rw [ElfFile.openAt, content]
            exact opened
          exact .extracted file items plain confirmed newly opened extraction symbols
            confirmation confirms

end KernelExports
