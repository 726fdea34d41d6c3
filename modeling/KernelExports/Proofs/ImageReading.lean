import KernelExports.Proofs.ExtractionLaws
import KernelExports.Proofs.ImageLayout

/-!
# Reading what was written

A file that is laid out by the writer is read back: the list of exports gives the written names in
order, and the symbol table gives the written symbols that are global or weak and have a name. So
plain extraction finds the exports under the indices of their first listings, and confirming
extraction marks those that are among these symbols.
-/

namespace KernelExports

open ExportNames StringTable

namespace ExportNames

/-- The segments of written names are these names. -/
theorem map_bytes_segmentsFrom {names : List String} (named : "" ∉ names)
    (free : ∀ name ∈ names, 0 ∉ Utf8.encode name) (position : Nat) :
    (segmentsFrom position (names.flatMap terminated)).map Segment.bytes =
      names.map Utf8.encode := by
  induction names generalizing position with
  | nil =>
    rw [List.flatMap_nil, segmentsFrom_of_free List.not_mem_nil]
    rfl
  | cons name rest ih =>
    obtain ⟨first, others⟩ := List.forall_mem_cons.mp free
    rw [List.mem_cons, not_or] at named
    have run : (segmentOf position (Utf8.encode name)).map Segment.bytes = [Utf8.encode name] := by
      cases h : Utf8.encode name with
      | nil => exact absurd (Utf8.encode_eq_nil_iff.mp h) (Ne.symm named.1)
      | cons byte bytes => rfl
    rw [List.flatMap_cons, terminated, List.append_assoc, List.singleton_append,
      segmentsFrom_append first, List.map_append, run, ih named.2 others]
    rfl

/-- A list of at least one name ends in a NUL byte. -/
theorem getLast?_flatMap_terminated {names : List String} (some_names : names ≠ []) :
    (names.flatMap terminated).getLast? = some 0 := by
  rw [← List.dropLast_append_getLast some_names, List.flatMap_append, List.flatMap_singleton,
    terminated, ← List.append_assoc]
  exact List.getLast?_concat

/-- A written list of names is parsed. -/
theorem exists_parse_eq_ok {names : List String} (some_names : names ≠ []) (named : "" ∉ names)
    (free : ∀ name ∈ names, 0 ∉ Utf8.encode name) :
    ∃ registry, parse (names.flatMap terminated).toByteArray = .ok registry ∧
      registry.Lists names := by
  have ends : (names.flatMap terminated).toByteArray.data.back? = some 0 := by
    rw [← Array.getLast?_toList, List.toList_data_toByteArray,
      getLast?_flatMap_terminated some_names]
  have texts : (segments (names.flatMap terminated).toByteArray.data.toList).map Segment.bytes =
      names.map Utf8.encode := by
    rw [List.toList_data_toByteArray]
    exact map_bytes_segmentsFrom named free 0
  exact exists_parse ends texts

end ExportNames

namespace SymbolImage

/-- The item that a symbol gives when it is read, if it can back an export. -/
def exported? (symbol : SymbolImage) : Option GlobalSymbol :=
  if symbol.name = "" then none
  else if symbol.binding = 1 then some ⟨symbol.name, symbol.value, .global⟩
  else if symbol.binding = 2 then some ⟨symbol.name, symbol.value, .weak⟩
  else none

/-- A symbol that confirms an export of the given name: it is global or weak. -/
def Confirms (symbol : SymbolImage) (name : String) : Prop :=
  symbol.name = name ∧ (symbol.binding = 1 ∨ symbol.binding = 2)

/-- A written symbol confirms a name if it is read as a symbol of that name. -/
theorem exported?_confirms {symbols : List SymbolImage} {name : String} (named : name ≠ "") :
    (∃ symbol ∈ symbols.filterMap exported?, symbol.name = name) ↔
      ∃ symbol ∈ symbols, symbol.Confirms name := by
  have each : ∀ symbol : SymbolImage,
      (∃ item, symbol.exported? = some item ∧ item.name = name) ↔ symbol.Confirms name := by
    intro symbol
    rw [exported?, Confirms]
    by_cases unnamed : symbol.name = ""
    · rw [if_pos unnamed, unnamed]
      simp [Ne.symm named]
    · rw [if_neg unnamed]
      split
      · next strong => simp [strong]
      · next other => split <;> simp_all
  simp only [List.mem_filterMap, ← each]
  constructor
  · intro h
    obtain ⟨item, ⟨symbol, listed, read⟩, same⟩ := h
    exact ⟨symbol, listed, item, read, same⟩
  · intro h
    obtain ⟨symbol, listed, item, read, same⟩ := h
    exact ⟨item, ⟨symbol, listed, read⟩, same⟩

/-- The binding is read back from the info byte. -/
theorem info_shiftRight {symbol : SymbolImage} (small : symbol.binding < 16) (position : Nat) :
    (symbol.record position).info >>> 4 = symbol.binding := by
  have each : ∀ number : Fin 16,
      (UInt8.ofNat number <<< 4 ||| 2) >>> 4 = UInt8.ofNat number := by decide
  have read := each ⟨symbol.binding.toNat, small⟩
  rwa [UInt8.ofNat_toNat] at read

/-- A symbol is read back where its name stands in the string table. -/
theorem ofRecord?_record {symbol : SymbolImage} (small : symbol.binding < 16) {table : ByteArray}
    {position : Nat} (positive : 0 < position) (fits : position < 2 ^ 32)
    (stands : symbol.name ≠ "" → HasEntry table position (Utf8.encode symbol.name)) :
    GlobalSymbol.ofRecord? table (symbol.record position) = symbol.exported?.map .ok := by
  have binding := info_shiftRight small position
  rw [exported?]
  by_cases unnamed : symbol.name = ""
  · rw [if_pos unnamed, Option.map_none, GlobalSymbol.ofRecord?_eq_none_iff]
    exact fun exported => exported.2 (if_pos unnamed)
  · have place : (symbol.record position).name.toNat = position := by
      simp only [record, unnamed, if_false]
      exact UInt32.toNat_ofNat_of_lt' fits
    have named : (symbol.record position).name ≠ 0 := by
      intro zero
      rw [zero] at place
      exact absurd place (Nat.ne_of_lt positive)
    have entry := place.symm ▸ stands unnamed
    rw [if_neg unnamed]
    by_cases strong : symbol.binding = 1
    · have visible : Binding.ofInfo? (symbol.record position).info = some .global := by
        rw [Binding.ofInfo?, binding, if_pos strong]
      rw [if_pos strong, Option.map_some, GlobalSymbol.ofRecord?_eq_some_ok_iff]
      exact ⟨visible, named, entry, rfl⟩
    · rw [if_neg strong]
      by_cases weak : symbol.binding = 2
      · have visible : Binding.ofInfo? (symbol.record position).info = some .weak := by
          rw [Binding.ofInfo?, binding, if_neg strong, if_pos weak]
        rw [if_pos weak, Option.map_some, GlobalSymbol.ofRecord?_eq_some_ok_iff]
        exact ⟨visible, named, entry, rfl⟩
      · rw [if_neg weak, Option.map_none, GlobalSymbol.ofRecord?_eq_none_iff]
        intro exported
        have visible := exported.1
        rw [binding] at visible
        exact visible.elim strong weak

/-- The symbols are read back, those with a name where it stands behind the names before it. -/
theorem filterMap_recordsFrom {symbols : List SymbolImage}
    (small : ∀ symbol ∈ symbols, symbol.binding < 16)
    (free : ∀ symbol ∈ symbols, 0 ∉ Utf8.encode symbol.name) (front : List UInt8)
    (positive : 0 < front.length)
    (fits : (front ++ symbols.flatMap nameBytes).length < 2 ^ 32) :
    (recordsFrom front.length symbols).filterMap
        (GlobalSymbol.ofRecord? (front ++ symbols.flatMap nameBytes).toByteArray) =
      (symbols.filterMap exported?).map .ok := by
  induction symbols generalizing front with
  | nil => rfl
  | cons symbol rest ih =>
    obtain ⟨small, small_rest⟩ := List.forall_mem_cons.mp small
    obtain ⟨free, free_rest⟩ := List.forall_mem_cons.mp free
    rw [List.flatMap_cons, ← List.append_assoc] at fits ⊢
    have further : 0 < (front ++ symbol.nameBytes).length := by
      rw [List.length_append]
      omega
    have behind := ih small_rest free_rest (front ++ symbol.nameBytes) further fits
    have position : front.length < 2 ^ 32 := by
      rw [List.length_append, List.length_append] at fits
      omega
    have stands : symbol.name ≠ "" →
        HasEntry (front ++ symbol.nameBytes ++ rest.flatMap nameBytes).toByteArray front.length
          (Utf8.encode symbol.name) := by
      intro named
      have whole : front ++ symbol.nameBytes ++ rest.flatMap nameBytes =
          front ++ (terminated symbol.name ++ rest.flatMap nameBytes) := by
        rw [nameBytes, if_neg named, List.append_assoc]
      exact ⟨free, Placed.toByteArray_iff.mpr ⟨front, _, whole, rfl⟩⟩
    rw [List.length_append] at behind
    rw [recordsFrom, List.filterMap_cons, ofRecord?_record small positive position stands, behind,
      List.filterMap_cons]
    cases symbol.exported? <;> rfl

/-- The symbol table that is written is read as the symbols that can back an export, in order. -/
theorem globalSymbols_table {symbols : List SymbolImage}
    (small : ∀ symbol ∈ symbols, symbol.binding < 16)
    (free : ∀ symbol ∈ symbols, 0 ∉ Utf8.encode symbol.name)
    (fits : (names symbols).length < 2 ^ 32) :
    globalSymbols (table symbols).toByteArray (names symbols).toByteArray =
      .ok ((symbols.filterMap exported?).map .ok) := by
  have spelled : table symbols =
      ((⟨0, 0, 0, 0, 0, 0⟩ : SymbolRecord) :: recordsFrom 1 symbols).flatMap Layout.toBytes := by
    rw [List.flatMap_cons]
    rfl
  have whole : (table symbols).toByteArray.size % 24 = 0 := by
    rw [spelled, List.size_toByteArray, length_flatMap_toBytes]
    exact Nat.mul_mod_right 24 _
  have items : (records SymbolRecord (table symbols).toByteArray).tail.filterMap
      (GlobalSymbol.ofRecord? (names symbols).toByteArray) =
        (symbols.filterMap exported?).map .ok := by
    rw [spelled, records_flatMap (by decide)]
    exact filterMap_recordsFrom small free [0] Nat.one_pos fits
  exact globalSymbols_eq_ok_iff.mpr ⟨whole, items⟩

end SymbolImage

/-- The registry has one record without a link for each listed name and no other record. The value
of a record is the index of the first listing of its name, and it is marked if its name is
confirmed. -/
structure Registry.HoldsNames (registry : Registry) (names : List String)
    (confirmed : String → Prop) : Prop where
  /-- The record of each name. -/
  record_iff : ∀ name record, registry.get? name = some record ↔
    name ∈ names ∧ record.name = name ∧ record.value.toNat = names.idxOf name ∧
      (record.marked = true ↔ confirmed name) ∧ record.link = none
  /-- The count of marks is the number of marked records. -/
  count : registry.markCount = (registry.toList.filter Record.marked).length

namespace Registry

/-- A registry that lists names holds them unmarked. -/
theorem Lists.holdsNames {registry : Registry} {names : List String} (lists : registry.Lists names)
    (few : names.length < addressCount) : registry.HoldsNames names fun _ => False where
  record_iff name record := by
    rw [lists.records, listedRecord_eq_some_iff few]
    simp only [iff_false, Bool.not_eq_true]
  count := by
    rw [lists.counted, countMarked, List.countP_eq_length_filter]

/-- Confirming sets the marks of the names of the symbols. -/
theorem HoldsNames.confirms {plain confirmed : Registry} {names : List String}
    {items : List (Except Malformation GlobalSymbol)}
    (holds : plain.HoldsNames names fun _ => False) (confirms : confirmed.Confirms plain items) :
    confirmed.HoldsNames names fun name => ∃ symbol, .ok symbol ∈ items ∧ symbol.name = name where
  record_iff name record := by
    have same := confirms.same name
    constructor
    · intro found
      rw [found, Option.map_some, eq_comm, Option.map_eq_some_iff] at same
      obtain ⟨old, old_found, fields⟩ := same
      obtain ⟨listed, named, value, -, link⟩ := (holds.record_iff name old).mp old_found
      rw [Prod.mk.injEq, Prod.mk.injEq] at fields
      obtain ⟨same_name, same_value, same_link⟩ := fields
      rw [← same_name, ← same_value, ← same_link]
      exact ⟨listed, named, value, confirms.marked_iff name record found, link⟩
    · intro h
      obtain ⟨listed, named, value, marked, link⟩ := h
      have old_found : plain.get? name = some ⟨name, record.value, false, none⟩ :=
        (holds.record_iff name _).mpr ⟨listed, rfl, value, by simp, rfl⟩
      rw [old_found, Option.map_some, Option.map_eq_some_iff] at same
      obtain ⟨new, found, fields⟩ := same
      have new_marked := confirms.marked_iff name new found
      rw [← marked, ← Bool.eq_iff_iff] at new_marked
      rw [Prod.mk.injEq, Prod.mk.injEq] at fields
      obtain ⟨new_name, new_value, new_link⟩ := fields
      rw [found, Option.some_inj]
      obtain ⟨name', value', marked', link'⟩ := record
      obtain ⟨name'', value'', marked'', link''⟩ := new
      dsimp only at *
      rw [new_name, new_value, new_marked, new_link, named, link]
  count := confirms.count

/-- Only whether the listed names are confirmed matters. -/
theorem HoldsNames.congr {registry : Registry} {names : List String} {first second : String → Prop}
    (same : ∀ name ∈ names, (first name ↔ second name)) (holds : registry.HoldsNames names first) :
    registry.HoldsNames names second where
  record_iff name record := by
    rw [holds.record_iff]
    exact and_congr_right fun listed => by rw [same name listed]
  count := holds.count

end Registry

/-- The image holds a list of exports, a symbol table and other sections, in any order. -/
structure FileImage.Contains (image : FileImage) (exports : List String)
    (symbols : List SymbolImage) (others : List SectionImage) : Prop where
  /-- The sections, in any order. -/
  sections : image.sections.Perm
    (SectionImage.ofExports exports :: (SymbolImage.sections symbols ++ others))
  /-- There are exports. -/
  nonempty : exports ≠ []
  /-- Every export has a name. -/
  named : "" ∉ exports
  /-- The names of exports have no NUL bytes. -/
  exports_free : ∀ name ∈ exports, 0 ∉ Utf8.encode name
  /-- Nor do the names of symbols. -/
  symbols_free : ∀ symbol ∈ symbols, 0 ∉ Utf8.encode symbol.name
  /-- Nor do the names of the other sections. -/
  others_free : ∀ other ∈ others, 0 ∉ Utf8.encode other.name
  /-- A binding has four bits. -/
  bindings : ∀ symbol ∈ symbols, symbol.binding < 16
  /-- The other sections have other names. -/
  others_named : ∀ other ∈ others,
    other.name ≠ exportSection ∧ other.name ≠ symbolSection ∧ other.name ≠ symbolNameSection
  /-- There are fewer section headers than a half word can count. -/
  few : image.headerCount < 65536
  /-- The positions of section names fit into a word. -/
  section_names : (tableOfNames image.names).length < 2 ^ 32
  /-- So do those of symbol names. -/
  symbol_names : (SymbolImage.names symbols).length < 2 ^ 32
  /-- The file can be mapped. -/
  small : image.toBytes.length < 2 ^ 63

namespace FileImage

variable {image : FileImage} {exports : List String} {symbols : List SymbolImage}
  {others : List SectionImage}

/-- The sections that are read. -/
def readSections (exports : List String) (symbols : List SymbolImage) : List SectionImage :=
  .ofExports exports :: SymbolImage.sections symbols

/-- The sections that are read are the exports, the symbols and their names. -/
theorem mem_readSections {written : SectionImage} :
    written ∈ readSections exports symbols ↔
      written = .ofExports exports ∨
        written = ⟨symbolSection, 2, SymbolImage.table symbols, 0, some symbolNameSection,
          UInt32.ofNat (SymbolImage.firstGlobal symbols), 24⟩ ∨
        written = .plain symbolNameSection 3 (SymbolImage.names symbols) := by
  simp [readSections, SymbolImage.sections]

namespace Contains

/-- The sections of a file are those that are read and the others. -/
theorem mem_sections (contains : image.Contains exports symbols others) {written : SectionImage} :
    written ∈ image.sections ↔ written ∈ readSections exports symbols ∨ written ∈ others := by
  rw [contains.sections.mem_iff, ← List.cons_append, List.mem_append, readSections]

/-- A file that contains sections of these kinds has room for all its numbers. -/
theorem fits (contains : image.Contains exports symbols others) : image.Fits where
  free written listed := by
    rcases contains.mem_sections.mp listed with read | other
    · rcases mem_readSections.mp read with rfl | rfl | rfl
      · change 0 ∉ Utf8.encode exportSection
        decide +kernel
      · change 0 ∉ Utf8.encode symbolSection
        decide +kernel
      · change 0 ∉ Utf8.encode symbolNameSection
        decide +kernel
    · exact contains.others_free written other
  few := contains.few
  names := contains.section_names
  small := contains.small

/-- The sections that are read have names of their own. -/
theorem own (contains : image.Contains exports symbols others) {written : SectionImage}
    (read : written ∈ readSections exports symbols) :
    ∀ other ∈ image.allSections, other.name = written.name → other = written := by
  have distinct : ((readSections exports symbols).map SectionImage.name).Nodup := by
    change [exportSection, symbolSection, symbolNameSection].Nodup
    decide
  have names : written.name = exportSection ∨ written.name = symbolSection ∨
      written.name = symbolNameSection := by
    rcases mem_readSections.mp read with rfl | rfl | rfl
    · exact .inl rfl
    · exact .inr (.inl rfl)
    · exact .inr (.inr rfl)
  intro other listed same
  rcases List.mem_append.mp listed with listed | listed
  · rcases contains.mem_sections.mp listed with read' | unread
    · exact List.inj_on_of_nodup_map distinct read' read same
    · obtain ⟨no_exports, no_symbols, no_names⟩ := contains.others_named other unread
      rw [← same] at names
      exact (names.elim no_exports fun names => names.elim no_symbols no_names).elim
  · rw [List.mem_singleton.mp listed] at same
    rw [← same] at names
    change nameSection = exportSection ∨ nameSection = symbolSection ∨
      nameSection = symbolNameSection at names
    exact absurd names (by decide)

/-- The sections that are read have content in the file. -/
theorem has_content (contains : image.Contains exports symbols others) {written : SectionImage}
    (read : written ∈ readSections exports symbols) :
    written.type ≠ SectionHeader.noBits ∧ written.content ≠ [] := by
  rcases mem_readSections.mp read with rfl | rfl | rfl
  · have kept : (1 : UInt32) ≠ SectionHeader.noBits := by decide
    have nonempty : exports.flatMap terminated ≠ [] := by
      rw [← List.dropLast_append_getLast contains.nonempty, List.flatMap_append,
        List.flatMap_singleton, terminated, ← List.append_assoc]
      exact List.concat_ne_nil _ _
    exact ⟨kept, nonempty⟩
  · have kept : (2 : UInt32) ≠ SectionHeader.noBits := by decide
    have nonempty : SymbolImage.table symbols ≠ [] :=
      List.append_ne_nil_of_left_ne_nil (by decide) _
    exact ⟨kept, nonempty⟩
  · have kept : (3 : UInt32) ≠ SectionHeader.noBits := by decide
    exact ⟨kept, List.cons_ne_nil _ _⟩

end Contains

/-- The file as it is open once it has been written. -/
def opened (image : FileImage) (symbols : List SymbolImage) (path : String) : ElfFile where
  path := path
  bytes := image.file
  header := image.fileHeader
  sections := ⟨image.reservedHeader :: image.sectionHeaders, image.nameBytes⟩
  symbolNames := some (SymbolImage.names symbols).toByteArray

namespace Contains

/-- The sections that are read are found. -/
theorem holds (contains : image.Contains exports symbols others) (path : String)
    {written : SectionImage} (read : written ∈ readSections exports symbols) :
    (image.opened symbols path).Holds written.name written.content.toByteArray := by
  obtain ⟨kept, nonempty⟩ := contains.has_content read
  have listed : written ∈ image.allSections :=
    List.mem_append_left _ (contains.mem_sections.mpr (.inl read))
  dsimp only [ElfFile.Holds, opened]
  exact holds_file contains.fits listed (contains.own read) kept nonempty

/-- The written file is opened. -/
theorem ofBytes_file (contains : image.Contains exports symbols others) (path : String) :
    ElfFile.ofBytes path image.file = .ok (image.opened symbols path) := by
  obtain ⟨found, lookup, content⟩ := ElfFile.holds_iff_find.mp
    (contains.holds path (mem_readSections.mpr (.inr (.inr rfl))))
  have bytes : (image.opened symbols path).bytes = image.file := by
    dsimp only [opened]
  have tables : ElfFile.readTables image.file =
      .ok ((image.opened symbols path).header, (image.opened symbols path).sections) := by
    dsimp only [opened]
    exact readTables_file contains.fits
  have kept : (image.opened symbols path).symbolNames = (some found).map Section.data := by
    rw [Option.map_some, content]
    rfl
  exact ElfFile.ofBytes_eq_ok_iff.mpr ⟨rfl, bytes, tables, some found, lookup, kept⟩

/-- There are fewer exports than bytes in the file. -/
theorem length_exports_lt (contains : image.Contains exports symbols others) :
    exports.length < addressCount := by
  obtain ⟨header, held⟩ := contains.holds "" (mem_readSections.mpr (.inl rfl))
  have small := contains.small
  have bound := held.placed.le
  have count := length_segmentsFrom_le 0 (exports.flatMap terminated)
  have texts := congrArg List.length
    (map_bytes_segmentsFrom contains.named contains.exports_free 0)
  rw [List.length_map, List.length_map] at texts
  rw [List.toList_data_toByteArray] at bound
  dsimp only [opened, SectionImage.ofExports, SectionImage.plain] at bound
  rw [file, List.size_toByteArray] at bound
  rw [addressCount]
  omega

/-- The symbols of the written file are the written ones. -/
theorem globalSymbols_opened (contains : image.Contains exports symbols others) (path : String) :
    (image.opened symbols path).globalSymbols =
      .ok ((symbols.filterMap SymbolImage.exported?).map .ok) :=
  ElfFile.globalSymbols_eq_ok_iff.mpr
    ⟨_, _, contains.holds path (mem_readSections.mpr (.inr (.inl rfl))), rfl,
      SymbolImage.globalSymbols_table contains.bindings contains.symbols_free
        contains.symbol_names⟩

/-- The written file is found where its bytes are. -/
theorem openElf_file (contains : image.Contains exports symbols others) {files : FileSystem}
    {path : String} (content : files path = .ok image.file) :
    openElf files path = .ok (some (image.opened symbols path)) :=
  openElf_eq_some_iff.mpr ⟨_, content, contains.ofBytes_file path⟩

/-- What is extracted from the written file is what its list of exports is parsed to. -/
theorem extract_opened (contains : image.Contains exports symbols others) (path : String)
    {plain : Registry} (parsed : parse (exports.flatMap terminated).toByteArray = .ok plain) :
    extract (image.opened symbols path) = .ok (some plain) := by
  have clean : firstError? ((symbols.filterMap SymbolImage.exported?).map
      (.ok : GlobalSymbol → Except Malformation GlobalSymbol)) = none := by
    rw [firstError?_eq_none_iff]
    intro item listed
    obtain ⟨symbol, -, rfl⟩ := List.mem_map.mp listed
    exact ⟨symbol, rfl⟩
  exact extract_eq_some_iff.mpr ⟨_, contains.holds path (mem_readSections.mpr (.inl rfl)), parsed,
    _, contains.globalSymbols_opened path, clean⟩

/-- Plain extraction gives the exports of the written file, unmarked. -/
theorem exists_readExports (contains : image.Contains exports symbols others) (files : FileSystem)
    (path : String) (content : files path = .ok image.file) :
    ∃ plain, extract (image.opened symbols path) = .ok (some plain) ∧
      readExports files path = .ok (some plain) ∧ plain.HoldsNames exports fun _ => False := by
  obtain ⟨plain, parsed, lists⟩ :=
    exists_parse_eq_ok contains.nonempty contains.named contains.exports_free
  have extraction := contains.extract_opened path parsed
  have read : readExports files path = .ok (some plain) := by
    rw [readExports, contains.openElf_file content]
    exact extraction
  exact ⟨plain, extraction, read, lists.holdsNames contains.length_exports_lt⟩

/-- The written file can be mapped. -/
theorem size_file_lt (contains : image.Contains exports symbols others) :
    image.file.size < 2 ^ 63 := by
  rw [file, List.size_toByteArray]
  exact contains.small

end Contains

/-- Reading undoes writing: from a written file, plain extraction gives the names of the exports,
unmarked and under the indices of their first listings, and confirming extraction gives the same
records with those marked that a global or weak symbol confirms. -/
theorem readExports_file (contains : image.Contains exports symbols others) (files : FileSystem)
    (path : String) (content : files path = .ok image.file) :
    ∃ plain confirmed, readExports files path = .ok (some plain) ∧
      readConfirmedExports files path = .ok (some confirmed) ∧
      plain.HoldsNames exports (fun _ => False) ∧
      confirmed.HoldsNames exports fun name => ∃ symbol ∈ symbols, symbol.Confirms name := by
  obtain ⟨plain, extraction, read_plain, holds⟩ := contains.exists_readExports files path content
  have found := contains.openElf_file content
  obtain ⟨items, newly, confirmed, read, confirmation, confirms⟩ := confirm_of_extract extraction
  rw [contains.globalSymbols_opened path, Except.ok.injEq] at read
  subst read
  have same_names : ∀ name ∈ exports,
      ((∃ symbol, .ok symbol ∈ (symbols.filterMap SymbolImage.exported?).map
          (.ok : GlobalSymbol → Except Malformation GlobalSymbol) ∧ symbol.name = name) ↔
        ∃ symbol ∈ symbols, symbol.Confirms name) := by
    intro name listed
    have named : name ≠ "" := fun empty => contains.named (empty ▸ listed)
    rw [← SymbolImage.exported?_confirms named]
    simp only [List.mem_map, Except.ok.injEq, exists_eq_right]
  have read_confirmed : readConfirmedExports files path = .ok (some confirmed) := by
    rw [readConfirmedExports, found]
    dsimp only
    rw [extraction]
    dsimp only
    rw [confirmation]
  exact ⟨plain, confirmed, read_plain, read_confirmed, holds,
    (holds.confirms confirms).congr same_names⟩

/-- A file with extended numbering whose sections of interest stand between others. One export is
listed twice, and one is backed by a local symbol only. -/
def sample : FileImage where
  sections := [.plain "" 1 [0x90, 0x90, 0x90], .plain symbolNameSection 3
      (SymbolImage.names [⟨"beta", 0, 8⟩, ⟨"", 1, 0⟩, ⟨"alpha", 2, 16⟩]),
    ⟨".bss", 8, [], 4096, none, 0, 0⟩, .ofExports ["alpha", "beta", "alpha"],
    .plain ".note" 7 []] ++
      (SymbolImage.sections [⟨"beta", 0, 8⟩, ⟨"", 1, 0⟩, ⟨"alpha", 2, 16⟩]).take 1
  extended := true

/-- The first export of the sample is confirmed, the second is not. -/
theorem readExports_sample :
    sample.Contains ["alpha", "beta", "alpha"] [⟨"beta", 0, 8⟩, ⟨"", 1, 0⟩, ⟨"alpha", 2, 16⟩]
      [.plain "" 1 [0x90, 0x90, 0x90], ⟨".bss", 8, [], 4096, none, 0, 0⟩, .plain ".note" 7 []] ∧
    ∃ plain confirmed, readExports (fun _ => .ok sample.file) "sample.ko" = .ok (some plain) ∧
      readConfirmedExports (fun _ => .ok sample.file) "sample.ko" = .ok (some confirmed) ∧
      plain.get? "alpha" = some ⟨"alpha", 0, false, none⟩ ∧
      confirmed.get? "alpha" = some ⟨"alpha", 0, true, none⟩ ∧
      confirmed.get? "beta" = some ⟨"beta", 1, false, none⟩ := by
  have contains : sample.Contains ["alpha", "beta", "alpha"]
      [⟨"beta", 0, 8⟩, ⟨"", 1, 0⟩, ⟨"alpha", 2, 16⟩]
      [.plain "" 1 [0x90, 0x90, 0x90], ⟨".bss", 8, [], 4096, none, 0, 0⟩, .plain ".note" 7 []] :=
    { sections := by decide +kernel
      nonempty := by decide
      named := by decide
      exports_free := by decide +kernel
      symbols_free := by decide +kernel
      others_free := by decide +kernel
      bindings := by decide
      others_named := by decide
      few := by decide +kernel
      section_names := by decide +kernel
      symbol_names := by decide +kernel
      small := by decide +kernel }
  obtain ⟨plain, confirmed, read, read_confirmed, holds, holds_confirmed⟩ :=
    readExports_file contains (fun _ => .ok sample.file) "sample.ko" rfl
  refine ⟨contains, plain, confirmed, read, read_confirmed, (holds.record_iff _ _).mpr ?_,
    (holds_confirmed.record_iff _ _).mpr ?_, (holds_confirmed.record_iff _ _).mpr ?_⟩
  · simp
  · simp [SymbolImage.Confirms]
  · simp [SymbolImage.Confirms]

end FileImage

end KernelExports
