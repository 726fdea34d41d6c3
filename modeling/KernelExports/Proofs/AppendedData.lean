import KernelExports.Proofs.ImageReading

/-!
# Files with more bytes behind them

A kernel module can carry a signature behind its ELF file. Whatever is read from a file is read from
a range that lies inside the file, and such a range is the same when more bytes follow; so whatever
could be read is read again, stage by stage, and nothing that was absent appears. Only a failure can
turn into something else, because a range that was cut short can become whole.
-/

namespace KernelExports

/-- A record that stands in the data stands in the longer data. -/
theorem decode?_append {α : Type} [Layout α] {data : ByteArray} {offset : Nat} {record : α}
    (suffix : ByteArray) (h : decode? α data offset = some record) :
    decode? α (data ++ suffix) offset = some record := by
  rw [decode?, Option.map_eq_some_iff] at h ⊢
  obtain ⟨part, found, rfl⟩ := h
  exact ⟨part, slice?_append suffix found, rfl⟩

/-- What stands in a file stands at the same place when more bytes follow. -/
theorem Placed.append {data : ByteArray} {offset : Nat} {content : List UInt8}
    (h : Placed data offset content) (suffix : ByteArray) :
    Placed (data ++ suffix) offset content := by
  obtain ⟨front, back, whole, place⟩ := h
  have longer : (data ++ suffix).data.toList =
      front ++ (content ++ (back ++ suffix.data.toList)) := by
    rw [ByteArray.data_append, Array.toList_append, whole, List.append_assoc, List.append_assoc]
  exact ⟨front, _, longer, place⟩

namespace SectionTable

variable {bytes : ByteArray} {header : FileHeader} (suffix : ByteArray)

/-- The stated number of sections is the same in the longer file. -/
theorem count_append {number : Nat} (h : count bytes header = .ok number) :
    count (bytes ++ suffix) header = .ok number := by
  rw [count] at h ⊢
  split
  · next escaped =>
    rw [if_pos escaped] at h
    split at h
    · next first found =>
      rw [decode?_append suffix found]
      exact h
    · cases h
  · next direct =>
    rw [if_neg direct] at h
    exact h

/-- The section headers that are read are the same in the longer file. -/
theorem readHeaders_append {headers : List SectionHeader}
    (h : readHeaders bytes header = .ok headers) :
    readHeaders (bytes ++ suffix) header = .ok headers := by
  rw [readHeaders] at h ⊢
  split
  · next none =>
    rw [if_pos none] at h
    exact h
  · next some =>
    rw [if_neg some] at h
    split at h
    · cases h
    · next sized =>
      rw [if_neg sized]
      split at h
      · cases h
      · next number counted =>
        rw [count_append suffix counted]
        dsimp only
        split at h
        · cases h
        · next fits =>
          rw [if_neg fits]
          split at h
          · next table found =>
            rw [slice?_append suffix found]
            exact h
          · cases h

/-- The section names that are read are the same in the longer file. -/
theorem readNames_append {names : SectionHeader} {table : ByteArray}
    (h : readNames bytes names = .ok table) : readNames (bytes ++ suffix) names = .ok table := by
  rw [readNames] at h ⊢
  split at h
  · cases h
  · next fits =>
    rw [if_neg fits]
    split at h
    · next part found =>
      rw [slice?_append suffix found]
      exact h
    · cases h

/-- The table that is made of headers and names is the same in the longer file. -/
theorem ofHeaders_append {headers : List SectionHeader} {table : SectionTable}
    (h : ofHeaders bytes header headers = .ok table) :
    ofHeaders (bytes ++ suffix) header headers = .ok table := by
  cases headers with
  | nil => exact h
  | cons first others =>
    rw [ofHeaders] at h ⊢
    split at h
    · cases h
    · split at h
      · cases h
      · split at h
        · cases h
        · next content read =>
          rw [readNames_append suffix read]
          exact h

/-- The section table that is read is the same in the longer file. -/
theorem read_append {table : SectionTable} (h : read bytes header = .ok table) :
    read (bytes ++ suffix) header = .ok table := by
  rw [read] at h ⊢
  split at h
  · cases h
  · next headers found =>
    rw [readHeaders_append suffix found]
    exact ofHeaders_append suffix h

end SectionTable

namespace ElfFile

variable {bytes : ByteArray} (suffix : ByteArray)

/-- A header that is accepted is accepted with more bytes behind the file. -/
theorem readHeader_append {header : FileHeader} (h : readHeader bytes = .ok header) :
    readHeader (bytes ++ suffix) = .ok header := by
  rw [readHeader] at h ⊢
  split at h
  · cases h
  · next long =>
    have longer : ¬ (bytes ++ suffix).size < 16 := by
      rw [ByteArray.size_append]
      omega
    have magic_bytes : (bytes ++ suffix).extract 0 4 = bytes.extract 0 4 := by
      rw [ByteArray.extract_append, Nat.zero_sub, Nat.sub_eq_zero_of_le (by omega),
        ByteArray.extract_same, ByteArray.append_empty]
    have same : ∀ (index : Nat) (inside : index < bytes.size)
        (inside' : index < (bytes ++ suffix).size),
        (bytes ++ suffix)[index] = bytes[index] :=
      fun index inside _ => ByteArray.getElem_append_left inside
    rw [dif_neg longer, magic_bytes, same 4 (by omega), same 5 (by omega), same 6 (by omega)]
    split at h
    · cases h
    · next elf =>
      rw [if_neg elf]
      split at h
      · cases h
      · next wide =>
        rw [if_neg wide]
        split at h
        · cases h
        · next version =>
          rw [if_neg version]
          split at h
          · cases h
          · next little =>
            rw [if_neg little]
            split at h
            · next read =>
              rw [decode?_append suffix read]
              exact h
            · cases h

/-- So are the header and the section table together. -/
theorem readTables_append {header : FileHeader} {table : SectionTable}
    (h : readTables bytes = .ok (header, table)) :
    readTables (bytes ++ suffix) = .ok (header, table) := by
  rw [readTables] at h ⊢
  split at h
  · cases h
  · next header' read =>
    rw [readHeader_append suffix read]
    dsimp only
    split at h
    · cases h
    · next table' found =>
      rw [SectionTable.read_append suffix found]
      exact h

/-- What a lookup has found or missed it finds or misses in the longer file. -/
theorem findIn_append {table : SectionTable} {name : String} {result : Option Section}
    (h : findIn bytes table name = .ok result) :
    findIn (bytes ++ suffix) table name = .ok result := by
  cases result with
  | none => exact findIn_eq_none_iff.mpr (findIn_eq_none_iff.mp h)
  | some found =>
    obtain ⟨named, held⟩ := findIn_eq_some_iff.mp h
    exact findIn_eq_some_iff.mpr ⟨named, { held with placed := held.placed.append suffix }⟩

/-- The longer file has the bytes of the other one at its start, and the same tables. -/
structure Extends (longer file : ElfFile) : Prop where
  /-- It begins with the bytes of the other file. -/
  bytes : ∃ suffix, longer.bytes = file.bytes ++ suffix
  /-- The header is the same. -/
  header : longer.header = file.header
  /-- The section table is the same. -/
  sections : longer.sections = file.sections
  /-- So are the names of the symbols. -/
  symbolNames : longer.symbolNames = file.symbolNames

/-- A file that can be opened can be opened with more bytes behind it, under any path. -/
theorem exists_extends_of_append {path : String} {file : ElfFile}
    (opened : ofBytes path bytes = .ok file) (path' : String) :
    ∃ longer, ofBytes path' (bytes ++ suffix) = .ok longer ∧ longer.Extends file := by
  obtain ⟨-, rfl, tables, names, found, kept⟩ := ofBytes_eq_ok_iff.mp opened
  have opened' : ofBytes path' (file.bytes ++ suffix) =
      .ok ⟨path', file.bytes ++ suffix, file.header, file.sections, file.symbolNames⟩ :=
    ofBytes_eq_ok_iff.mpr ⟨rfl, rfl, readTables_append suffix tables, names,
      findIn_append suffix found, kept⟩
  exact ⟨_, opened', ⟨suffix, rfl⟩, rfl, rfl, rfl⟩

namespace Extends

variable {longer file : ElfFile} (extension : longer.Extends file)

include extension

/-- What a lookup finds is found again, and what is missing stays missing. -/
theorem find {name : String} {result : Option Section} (h : file.find name = .ok result) :
    longer.find name = .ok result := by
  obtain ⟨suffix, bytes⟩ := extension.bytes
  rw [ElfFile.find, bytes, extension.sections]
  exact findIn_append suffix h

/-- The content of a section is the same in the longer file. -/
theorem holds {name : String} {content : ByteArray} (h : file.Holds name content) :
    longer.Holds name content := by
  obtain ⟨found, lookup, same⟩ := holds_iff_find.mp h
  exact holds_iff_find.mpr ⟨found, extension.find lookup, same⟩

/-- The symbols of the file are those of the longer file, if they can be listed at all. -/
theorem globalSymbols {items : List (Except Malformation GlobalSymbol)}
    (h : file.globalSymbols = .ok items) : longer.globalSymbols = .ok items := by
  obtain ⟨symbols, names, held, kept, read⟩ := globalSymbols_eq_ok_iff.mp h
  rw [← extension.symbolNames] at kept
  exact globalSymbols_eq_ok_iff.mpr ⟨symbols, names, extension.holds held, kept, read⟩

/-- What is extracted from the file is extracted from the longer file. -/
theorem extract {result : Option Registry} (h : KernelExports.extract file = .ok result) :
    KernelExports.extract longer = .ok result := by
  cases result with
  | none =>
    have missing := extract_eq_none_iff.mp h
    rw [← extension.sections] at missing
    exact extract_eq_none_iff.mpr missing
  | some registry =>
    obtain ⟨listing, held, parsed, items, symbols, clean⟩ := extract_eq_some_iff.mp h
    exact extract_eq_some_iff.mpr
      ⟨listing, extension.holds held, parsed, items, extension.globalSymbols symbols, clean⟩

/-- Once the symbols are found, they confirm the same records. -/
theorem confirm {items : List (Except Malformation GlobalSymbol)}
    (h : file.globalSymbols = .ok items) (registry : Registry) :
    KernelExports.confirm longer registry = KernelExports.confirm file registry := by
  rw [KernelExports.confirm, KernelExports.confirm, h, extension.globalSymbols h]

end Extends

end ElfFile

section Files

variable {files files' : FileSystem} {path path' : String} {file longer : ElfFile}

/-- The confirmed exports of a file are what its symbols make of the plain ones. -/
theorem readConfirmedExports_of_confirm {plain confirmed : Registry} {newly : Nat}
    (opened : openElf files path = .ok (some file)) (extraction : extract file = .ok (some plain))
    (confirmation : confirm file plain = (.ok newly, confirmed)) :
    readConfirmedExports files path = .ok (some confirmed) := by
  rw [readConfirmedExports, opened]
  dsimp only
  rw [extraction]
  dsimp only
  rw [confirmation]

/-- The exports of a file are those of the file with more bytes behind it. -/
theorem readExports_extends (extension : longer.Extends file)
    (opened : openElf files path = .ok (some file))
    (opened' : openElf files' path' = .ok (some longer)) {result : Option Registry}
    (h : readExports files path = .ok result) : readExports files' path' = .ok result := by
  rw [readExports, opened] at h
  rw [readExports, opened']
  exact extension.extract h

/-- So are the confirmed exports. -/
theorem readConfirmedExports_extends (extension : longer.Extends file)
    (opened : openElf files path = .ok (some file))
    (opened' : openElf files' path' = .ok (some longer)) {result : Option Registry}
    (h : readConfirmedExports files path = .ok result) :
    readConfirmedExports files' path' = .ok result := by
  rw [readConfirmedExports, opened] at h
  rw [readConfirmedExports, opened']
  dsimp only at h ⊢
  split at h
  · cases h
  · next nothing =>
    rw [extension.extract nothing]
    exact h
  · next registry extraction =>
    obtain ⟨-, -, -, items, symbols, -⟩ := extract_eq_some_iff.mp extraction
    rw [extension.extract extraction]
    dsimp only
    rw [extension.confirm symbols]
    exact h

end Files

/-- Whatever bytes follow a file that can be opened, the file is opened with them, with the same
header, as many sections and the same symbol names. What a lookup finds or misses it finds or misses
again, and reading the exports, confirmed or not, gives what it gave without these bytes. -/
theorem appended_data_ignored {path : String} {bytes : ByteArray} {file : ElfFile}
    (opened : ElfFile.ofBytes path bytes = .ok file) (suffix : ByteArray) (path' : String) :
    ∃ longer, ElfFile.ofBytes path' (bytes ++ suffix) = .ok longer ∧
      longer.header = file.header ∧ longer.sectionCount = file.sectionCount ∧
      longer.symbolNames = file.symbolNames ∧
      (∀ name found, file.find name = .ok found → longer.find name = .ok found) ∧
      ∀ files files', files path = .ok bytes → files' path' = .ok (bytes ++ suffix) →
        (∀ result, readExports files path = .ok result →
          readExports files' path' = .ok result) ∧
        ∀ result, readConfirmedExports files path = .ok result →
          readConfirmedExports files' path' = .ok result := by
  obtain ⟨longer, opened', extension⟩ := ElfFile.exists_extends_of_append suffix opened path'
  have count : longer.sectionCount = file.sectionCount := by
    rw [ElfFile.sectionCount, ElfFile.sectionCount, extension.sections]
  refine ⟨longer, opened', extension.header, count, extension.symbolNames,
    fun name found lookup => extension.find lookup, ?_⟩
  intro files files' content content'
  have found := openElf_eq_some_iff.mpr ⟨bytes, content, opened⟩
  have found' := openElf_eq_some_iff.mpr ⟨bytes ++ suffix, content', opened'⟩
  exact ⟨fun result => readExports_extends extension found found',
    fun result => readConfirmedExports_extends extension found found'⟩

/-- A module that exports one symbol, which its symbol table confirms. -/
def signedModule : FileImage where
  sections := .ofExports ["alpha"] :: SymbolImage.sections [⟨"alpha", 1, 16⟩]
  extended := false

/-- The module contains its export, the symbol that confirms it, and nothing else. -/
theorem signedModule_contains : signedModule.Contains ["alpha"] [⟨"alpha", 1, 16⟩] [] where
  sections := by decide +kernel
  nonempty := by decide
  named := by decide
  exports_free := by decide +kernel
  symbols_free := by decide +kernel
  others_free := by decide +kernel
  bindings := by decide
  others_named := by decide
  few := by decide +kernel
  section_names := by decide +kernel
  symbol_names := by decide +kernel
  small := by decide +kernel

/-- The first bytes of a signature. -/
def signature : ByteArray :=
  (Utf8.encode "~Module signature appended~").toByteArray

/-- The export is found and confirmed with the signature behind the file. -/
theorem signedModule_confirmed :
    ElfFile.ofBytes "plain.ko" signedModule.file =
      .ok (signedModule.opened [⟨"alpha", 1, 16⟩] "plain.ko") ∧
    ∃ plain confirmed,
      readExports (fun _ => .ok (signedModule.file ++ signature)) "signed.ko" =
        .ok (some plain) ∧
      readConfirmedExports (fun _ => .ok (signedModule.file ++ signature)) "signed.ko" =
        .ok (some confirmed) ∧
      plain.get? "alpha" = some ⟨"alpha", 0, false, none⟩ ∧
      confirmed.get? "alpha" = some ⟨"alpha", 0, true, none⟩ := by
  have contains := signedModule_contains
  have opened := contains.ofBytes_file "plain.ko"
  obtain ⟨plain, extraction, read, holds⟩ :=
    contains.exists_readExports (fun _ => .ok signedModule.file) "plain.ko" rfl
  obtain ⟨items, newly, confirmed, symbols, confirmation, confirms⟩ :=
    confirm_of_extract extraction
  have found : openElf (fun _ => .ok signedModule.file) "plain.ko" =
      .ok (some (signedModule.opened [⟨"alpha", 1, 16⟩] "plain.ko")) := contains.openElf_file rfl
  have read_confirmed := readConfirmedExports_of_confirm found extraction confirmation
  obtain ⟨longer, -, -, -, -, -, same⟩ := appended_data_ignored opened signature "signed.ko"
  obtain ⟨same_plain, same_confirmed⟩ := same (fun _ => .ok signedModule.file)
    (fun _ => .ok (signedModule.file ++ signature)) rfl rfl
  have record := (holds.record_iff "alpha" ⟨"alpha", 0, false, none⟩).mpr (by simp)
  have confirmed_by : ∃ symbol, .ok symbol ∈ items ∧ symbol.name = "alpha" := by
    rw [contains.globalSymbols_opened "plain.ko", Except.ok.injEq] at symbols
    rw [← symbols]
    exact ⟨⟨"alpha", 16, .global⟩, List.mem_singleton_self _, rfl⟩
  have marked := ((holds.confirms confirms).record_iff "alpha" ⟨"alpha", 0, true, none⟩).mpr
    (by simp [confirmed_by])
  exact ⟨opened, plain, confirmed, same_plain _ read, same_confirmed _ read_confirmed, record,
    marked⟩

end KernelExports
