import KernelExports.Proofs.FirstSection

/-!
# Which files are opened

A file is opened in steps: its header is accepted, its section headers are read, the index of the
section names is checked, and the symbol names are looked up. What each step needs is stated here
with the numbers of the file and no bound on sums and products; a file that has all of it is opened
if, and only if, the lookup of the symbol names does not fail. That lookup is the only step that
looks for the section names, so it also finds out that they are not in the file.
-/

namespace KernelExports

open StringTable

namespace SectionTable

/-- The number of section headers that a file states. Where the field of the file header is zero,
the first section header states it. -/
inductive StatesCount (bytes : ByteArray) (header : FileHeader) : Nat → Prop where
  /-- The field of the file header. -/
  | field (direct : header.sectionHeaderCount ≠ 0) :
    StatesCount bytes header header.sectionHeaderCount.toNat
  /-- The size of the first section. -/
  | reserved (escape : header.sectionHeaderCount = 0) (reserved : SectionHeader)
    (stands : decode? SectionHeader bytes header.sectionHeaderOffset.toNat = some reserved) :
    StatesCount bytes header reserved.size.toNat

/-- The index of the section names that a file states. Where the field of the file header is the
largest number, the first section header states it. -/
inductive StatesNameIndex (bytes : ByteArray) (header : FileHeader) : Nat → Prop where
  /-- The field of the file header. -/
  | field (direct : header.sectionNameIndex ≠ 0xffff) :
    StatesNameIndex bytes header header.sectionNameIndex.toNat
  /-- The link of the first section. -/
  | reserved (escape : header.sectionNameIndex = 0xffff) (reserved : SectionHeader)
    (stands : decode? SectionHeader bytes header.sectionHeaderOffset.toNat = some reserved) :
    StatesNameIndex bytes header reserved.link.toNat

/-- The section headers of a file: none if the table has no position, or as many as are stated, one
every 64 bytes. -/
inductive ListsHeaders (bytes : ByteArray) (header : FileHeader) : List SectionHeader → Prop where
  /-- The table has no position. -/
  | nowhere (none : header.sectionHeaderOffset = 0) : ListsHeaders bytes header []
  /-- The table has a position. -/
  | somewhere (headers : List SectionHeader) (position : header.sectionHeaderOffset ≠ 0)
    (stated : StatesCount bytes header headers.length)
    (stand : ∀ index, index < headers.length →
      decode? SectionHeader bytes (header.sectionHeaderOffset.toNat + 64 * index) =
        headers[index]?) :
    ListsHeaders bytes header headers

/-- What can be wrong with a section header table. -/
inductive BadTable (bytes : ByteArray) (header : FileHeader) : Prop where
  /-- Its entries have another size. -/
  | entrySize (wrong : header.sectionHeaderSize ≠ 64)
  /-- The first header, which states the number, is not in the file. -/
  | noReserved (escape : header.sectionHeaderCount = 0)
    (outside : bytes.size < header.sectionHeaderOffset.toNat + 64)
  /-- It is not in the file as a whole. -/
  | outside (number : Nat) (stated : StatesCount bytes header number)
    (outside : bytes.size < header.sectionHeaderOffset.toNat + 64 * number)
  /-- There are sections, but the index of their names is that of none, or that of the reserved
  one. -/
  | nameIndex (number index : Nat) (stated : StatesCount bytes header number)
    (positive : 0 < number) (chosen : StatesNameIndex bytes header index)
    (wrong : index = 0 ∨ number ≤ index)

section Stated

variable {bytes : ByteArray} {header : FileHeader} {headers : List SectionHeader}

/-- The number of sections that is read is the stated one. -/
theorem count_eq_ok_iff {number : Nat} :
    count bytes header = .ok number ↔ StatesCount bytes header number := by
  rw [count]
  constructor
  · intro h
    split at h
    · next escape =>
      split at h
      · next reserved stands =>
        cases h
        exact .reserved escape reserved stands
      · cases h
    · next direct =>
      cases h
      exact .field direct
  · intro stated
    cases stated with
    | field direct => exact if_neg direct
    | reserved escape reserved stands => rw [if_pos escape, stands]

/-- A file states one number of sections. -/
theorem StatesCount.unique {first second : Nat} (stated : StatesCount bytes header first)
    (stated' : StatesCount bytes header second) : first = second := by
  rw [← count_eq_ok_iff] at stated stated'
  exact Except.ok.inj (stated.symm.trans stated')

/-- A number that cannot be read makes a bad table. -/
theorem badTable_of_count_error {fault : Malformation}
    (failed : count bytes header = .error fault) : BadTable bytes header := by
  rw [count] at failed
  split at failed
  · next escape =>
    split at failed
    · cases failed
    · next missing => exact .noReserved escape (decode?_eq_none_iff.mp missing)
  · cases failed

/-- The index that a table in the file states is the one that its reader takes. -/
theorem statesNameIndex_iff {reserved : SectionHeader} {index : Nat}
    (stands : decode? SectionHeader bytes header.sectionHeaderOffset.toNat = some reserved) :
    StatesNameIndex bytes header index ↔ index = nameIndex header reserved := by
  rw [nameIndex]
  constructor
  · intro chosen
    cases chosen with
    | field direct => rw [if_neg direct]
    | reserved escape found stands' =>
      rw [stands, Option.some_inj] at stands'
      rw [if_pos escape, stands']
  · rintro rfl
    split
    · next escape => exact .reserved escape reserved stands
    · next direct => exact .field direct

/-- The headers that are read are the stated ones. -/
theorem listsHeaders_of_readHeaders (read : readHeaders bytes header = .ok headers) :
    ListsHeaders bytes header headers := by
  by_cases none : header.sectionHeaderOffset = 0
  · rw [readHeaders, if_pos none] at read
    cases read
    exact .nowhere none
  · obtain ⟨-, counted, -, table, found, rfl⟩ := (readHeaders_eq_ok_iff none).mp read
    refine .somewhere _ none (count_eq_ok_iff.mp counted) fun index inside => ?_
    have size : Layout.size SectionHeader = 64 := rfl
    rw [getElem?_records (by decide) table index, size]
    exact (decode?_of_slice? found (by rw [size]; omega)).symm

/-- The table of the headers that are read ends inside the file. -/
theorem le_of_readHeaders (position : header.sectionHeaderOffset ≠ 0)
    (read : readHeaders bytes header = .ok headers) :
    header.sectionHeaderOffset.toNat + 64 * headers.length ≤ bytes.size := by
  obtain ⟨-, -, -, table, found, -⟩ := (readHeaders_eq_ok_iff position).mp read
  have inside := le_of_slice? found
  omega

/-- The first header of the list stands where the table begins. -/
theorem ListsHeaders.head (lists : ListsHeaders bytes header headers) {reserved : SectionHeader}
    (leads : headers.head? = some reserved) :
    decode? SectionHeader bytes header.sectionHeaderOffset.toNat = some reserved := by
  cases lists with
  | nowhere none => cases leads
  | somewhere _ position stated stand =>
    rw [List.head?_eq_getElem?] at leads
    obtain ⟨inside, -⟩ := List.getElem?_eq_some_iff.mp leads
    exact (stand 0 inside).trans leads

/-- A section header table that is not read has something wrong with it. -/
theorem badTable_of_readHeaders_error (small : bytes.size < 2 ^ 63) {fault : Malformation}
    (failed : readHeaders bytes header = .error fault) : BadTable bytes header := by
  rw [readHeaders] at failed
  split at failed
  · cases failed
  · split at failed
    · next wrong => exact .entrySize wrong
    · split at failed
      · next uncounted => exact badTable_of_count_error uncounted
      · next number counted =>
        have stated := count_eq_ok_iff.mp counted
        split at failed
        · next large =>
          rw [addressCount] at large
          exact .outside number stated (by omega)
        · split at failed
          · cases failed
          · next missing =>
            have outside := slice?_eq_none_iff.mp missing
            exact .outside number stated (by omega)

/-- Once the headers are read, only the index of the names can be wrong. -/
theorem badTable_iff_missesNames (position : header.sectionHeaderOffset ≠ 0)
    (read : readHeaders bytes header = .ok headers) :
    BadTable bytes header ↔ MissesNames header headers := by
  obtain ⟨sized, counted, -⟩ := (readHeaders_eq_ok_iff position).mp read
  have stated := count_eq_ok_iff.mp counted
  have lists := listsHeaders_of_readHeaders read
  have bound := le_of_readHeaders position read
  constructor
  · intro bad
    cases bad with
    | entrySize wrong => exact absurd sized wrong
    | noReserved escape outside =>
      rw [count, if_pos escape, decode?_eq_none_iff.mpr outside] at counted
      cases counted
    | outside number stated' outside =>
      obtain rfl := stated'.unique stated
      omega
    | nameIndex number index stated' positive chosen wrong =>
      obtain rfl := stated'.unique stated
      obtain ⟨reserved, others, rfl⟩ := List.exists_cons_of_length_pos positive
      obtain rfl := (statesNameIndex_iff (lists.head rfl)).mp chosen
      exact ⟨reserved, rfl, wrong⟩
  · rintro ⟨reserved, leads, wrong⟩
    have positive : 0 < headers.length := List.length_pos_of_mem (List.mem_of_mem_head? leads)
    exact .nameIndex _ _ stated positive ((statesNameIndex_iff (lists.head leads)).mpr rfl) wrong

end Stated

end SectionTable

namespace ElfFile

open SectionTable

/-- What can be wrong with a file that begins like a 64-bit ELF file, before a section is looked
up. -/
inductive BadStart (bytes : ByteArray) : Prop where
  /-- The format has another version. -/
  | version (found : UInt8) (stands : bytes.data[6]? = some found) (wrong : found ≠ 1)
  /-- The numbers are not little-endian. -/
  | encoding (found : UInt8) (stands : bytes.data[5]? = some found) (wrong : found ≠ 1)
  /-- The file ends inside its header. -/
  | short (cut : bytes.size < 64)
  /-- There is a section header table, but it is of no use. -/
  | table (header : FileHeader) (stands : decode? FileHeader bytes 0 = some header)
    (position : header.sectionHeaderOffset ≠ 0) (bad : BadTable bytes header)

/-- The outcomes of reading the header of a file that begins like an ELF file. -/
inductive HeaderRead (bytes : ByteArray) : Prop where
  /-- The file has another class. -/
  | otherClass (width : UInt8) (stands : bytes.data[4]? = some width) (wrong : width ≠ 2)
    (failed : readHeader bytes = .error (.unsupportedClass width))
  /-- Something else is wrong with it. -/
  | bad (fault : Malformation) (wide : bytes.data[4]? = some 2) (bad : BadStart bytes)
    (failed : readHeader bytes = .error (.malformed fault))
  /-- The header is accepted. -/
  | accepted (header : FileHeader) (wide : bytes.data[4]? = some 2)
    (version : bytes.data[6]? = some 1) (little : bytes.data[5]? = some 1)
    (stands : decode? FileHeader bytes 0 = some header) (read : readHeader bytes = .ok header)

section Stages

variable {path : String} {bytes : ByteArray}

/-- A file begins like an ELF file if its first four bytes are those of all of them. -/
theorem startsLikeElf_iff_take :
    StartsLikeElf bytes ↔ 16 ≤ bytes.size ∧ bytes.data.toList.take 4 = magic := by
  rw [StartsLikeElf, Placed.iff_take_drop, List.drop_zero]
  constructor
  · rintro ⟨long, -, start⟩
    exact ⟨long, start⟩
  · rintro ⟨long, start⟩
    have enough : 0 + magic.length ≤ bytes.size := Nat.le_trans (by decide) long
    exact ⟨long, enough, start⟩

/-- The header is missing exactly if the file is shorter. -/
theorem decode?_fileHeader_eq_none_iff :
    decode? FileHeader bytes 0 = none ↔ bytes.size < 64 := by
  rw [decode?_eq_none_iff, Nat.zero_add]
  rfl

/-- Reading the header has one of these outcomes. -/
theorem headerRead (start : StartsLikeElf bytes) : HeaderRead bytes := by
  obtain ⟨long, same⟩ := startsLikeElf_iff_take.mp start
  have byte : ∀ index (inside : index < bytes.size), bytes.data[index]? = some bytes[index] :=
    fun index inside => Array.getElem?_eq_getElem inside
  have width := byte 4 (by omega)
  have version := byte 6 (by omega)
  have encoding := byte 5 (by omega)
  have read := readHeader.eq_def bytes
  have magic_bytes : (bytes.extract 0 4).data.toList = magic := by
    rw [toList_data_extract_append bytes 0 4, List.drop_zero, same]
  rw [dif_neg (Nat.not_lt.mpr long), if_neg (not_not_intro magic_bytes)] at read
  split at read
  · next wrong => exact .otherClass _ width wrong read
  · next wide =>
    rw [not_not.mp wide] at width
    split at read
    · next wrong => exact .bad _ width (.version _ version wrong) read
    · next current =>
      rw [not_not.mp current] at version
      split at read
      · next wrong => exact .bad _ width (.encoding _ encoding wrong) read
      · next little =>
        rw [not_not.mp little] at encoding
        split at read
        · next header stands => exact .accepted header width version encoding stands read
        · next missing =>
          exact .bad _ width (.short (decode?_fileHeader_eq_none_iff.mp missing)) read

/-- A file whose header is not accepted is not opened. -/
theorem ofBytes_of_readHeader_error {error : Error} (failed : readHeader bytes = .error error) :
    ofBytes path bytes = .error error := by
  rw [ofBytes, readTables, failed]

/-- A file whose section headers cannot be read is malformed. -/
theorem ofBytes_of_readHeaders_error {header : FileHeader} {fault : Malformation}
    (accepted : readHeader bytes = .ok header)
    (failed : readHeaders bytes header = .error fault) :
    ofBytes path bytes = .error (.malformed fault) := by
  rw [ofBytes, readTables, accepted]
  dsimp only
  rw [SectionTable.read, failed]

/-- A file with a bad section header table is malformed. -/
theorem exists_malformed_of_badTable {header : FileHeader} (path : String)
    (accepted : readHeader bytes = .ok header) (position : header.sectionHeaderOffset ≠ 0)
    (bad : BadTable bytes header) : ∃ fault, ofBytes path bytes = .error (.malformed fault) := by
  cases read : readHeaders bytes header with
  | error fault => exact ⟨fault, ofBytes_of_readHeaders_error accepted read⟩
  | ok headers =>
    obtain ⟨reserved, -, failed⟩ :=
      ofHeaders_of_missesNames ((badTable_iff_missesNames position read).mp bad)
    refine ⟨.nameTableIndex (nameIndex header reserved), ?_⟩
    rw [ofBytes, readTables, accepted]
    dsimp only
    rw [SectionTable.read, read]
    dsimp only
    rw [failed]

/-- Once the index of the section names is known to be one of the table, all depends on the lookup
of the symbol names. -/
theorem ofBytes_eq_error_iff_lookUp {header : FileHeader} {headers : List SectionHeader}
    (accepted : readHeader bytes = .ok header) (read : readHeaders bytes header = .ok headers)
    (good : ¬ MissesNames header headers) (error : Error) :
    ofBytes path bytes = .error error ↔
      lookUp bytes header headers symbolNameSection = .error error := by
  rw [lookUp_eq good, ofBytes, readTables, accepted]
  dsimp only
  rw [SectionTable.read, read]
  dsimp only
  cases ofHeaders bytes header headers with
  | error fault => simp
  | ok table =>
    dsimp only
    cases findIn bytes table symbolNameSection <;> simp

/-- Without a bad start the headers are read, and their index of the names is one of the table. -/
theorem exists_readHeaders (small : bytes.size < 2 ^ 63) {header : FileHeader}
    (stands : decode? FileHeader bytes 0 = some header) (good : ¬ BadStart bytes) :
    ∃ headers, readHeaders bytes header = .ok headers ∧ ¬ MissesNames header headers := by
  by_cases nowhere : header.sectionHeaderOffset = 0
  · have none : ¬ MissesNames header [] := by
      rintro ⟨reserved, leads, -⟩
      cases leads
    exact ⟨[], if_pos nowhere, none⟩
  · have good_table : ¬ BadTable bytes header := fun bad => good (.table header stands nowhere bad)
    cases read : readHeaders bytes header with
    | error fault => exact absurd (badTable_of_readHeaders_error small read) good_table
    | ok headers =>
      exact ⟨headers, rfl, mt (badTable_iff_missesNames nowhere read).mpr good_table⟩

end Stages

/-- Which files are opened, with which error the others fail, and what is known of an open one. -/
structure Opening (path : String) (bytes : ByteArray) : Prop where
  /-- Only a file that does not begin like an ELF file is none. -/
  notElf_iff : ofBytes path bytes = .error .notElf ↔
    bytes.size < 16 ∨ bytes.data.toList.take 4 ≠ magic
  /-- Otherwise the class is looked at first. -/
  class_iff : StartsLikeElf bytes → ∀ width,
    ofBytes path bytes = .error (.unsupportedClass width) ↔
      bytes.data[4]? = some width ∧ width ≠ 2
  /-- Then what comes before the section names. -/
  malformed : StartsLikeElf bytes → bytes.data[4]? = some 2 → BadStart bytes →
    ∃ fault, ofBytes path bytes = .error (.malformed fault)
  /-- Then opening fails exactly if the lookup of the symbol names does, and with its error. -/
  decided : StartsLikeElf bytes → bytes.data[4]? = some 2 → ¬ BadStart bytes →
    ∃ header headers, decode? FileHeader bytes 0 = some header ∧
      ListsHeaders bytes header headers ∧
      ∀ error, ofBytes path bytes = .error error ↔
        lookUp bytes header headers symbolNameSection = .error error
  /-- An open file has the header and the section headers that stand in it. -/
  headers : ∀ file, ofBytes path bytes = .ok file →
    decode? FileHeader bytes 0 = some file.header ∧
      ListsHeaders bytes file.header file.sections.headers
  /-- If it has sections, their names are in the file, under the stated index. -/
  names : ∀ file, ofBytes path bytes = .ok file → file.sections.headers ≠ [] →
    ∃ index entry, StatesNameIndex bytes file.header index ∧
      file.sections.headers[index]? = some entry ∧
      entry.offset.toNat + entry.size.toNat ≤ bytes.size ∧
      slice? bytes entry.offset.toNat entry.size.toNat = some file.sections.names
  /-- The symbol names of an open file are those that the lookup found. -/
  symbolNames : ∀ file, ofBytes path bytes = .ok file →
    ∃ found, lookUp bytes file.header file.sections.headers symbolNameSection = .ok found ∧
      file.symbolNames = found.map Section.data

/-- What is stated of opening holds for every file that can be mapped. -/
theorem opening {bytes : ByteArray} (small : bytes.size < 2 ^ 63) (path : String) :
    Opening path bytes where
  notElf_iff := by
    rw [ofBytes_eq_notElf_iff, startsLikeElf_iff_take, not_and_or, Nat.not_le]
  class_iff start width := by
    rw [ofBytes_eq_error_iff_readHeader path (by simp) (by simp)]
    cases headerRead start with
    | otherClass other stands wrong failed =>
      rw [failed, stands]
      simp only [Except.error.injEq, Error.unsupportedClass.injEq, Option.some_inj]
      constructor
      · rintro rfl
        exact ⟨rfl, wrong⟩
      · exact And.left
    | bad fault wide _ failed =>
      rw [failed, wide]
      simp only [Except.error.injEq, reduceCtorEq, Option.some_inj, false_iff]
      rintro ⟨rfl, wrong⟩
      exact wrong rfl
    | accepted header wide _ _ _ read =>
      rw [read, wide]
      simp only [reduceCtorEq, Option.some_inj, false_iff]
      rintro ⟨rfl, wrong⟩
      exact wrong rfl
  malformed start wide bad := by
    cases headerRead start with
    | otherClass other stands wrong failed =>
      rw [stands, Option.some_inj] at wide
      exact absurd wide wrong
    | bad fault _ _ failed => exact ⟨fault, ofBytes_of_readHeader_error failed⟩
    | accepted header _ version little stands read =>
      cases bad with
      | version found stands' wrong =>
        rw [version, Option.some_inj] at stands'
        exact absurd stands'.symm wrong
      | encoding found stands' wrong =>
        rw [little, Option.some_inj] at stands'
        exact absurd stands'.symm wrong
      | short cut =>
        rw [decode?_fileHeader_eq_none_iff.mpr cut] at stands
        cases stands
      | table header' stands' position bad =>
        rw [stands, Option.some_inj] at stands'
        subst stands'
        exact exists_malformed_of_badTable path read position bad
  decided start wide good := by
    cases headerRead start with
    | otherClass other stands wrong failed =>
      rw [stands, Option.some_inj] at wide
      exact absurd wide wrong
    | bad _ _ bad _ => exact absurd bad good
    | accepted header _ _ _ stands read =>
      obtain ⟨headers, listed, names⟩ := exists_readHeaders small stands good
      exact ⟨header, headers, stands, listsHeaders_of_readHeaders listed,
        ofBytes_eq_error_iff_lookUp read listed names⟩
  headers file opened := by
    obtain ⟨-, -, tables, -⟩ := ofBytes_eq_ok_iff.mp opened
    obtain ⟨accepted, read⟩ := readTables_eq_ok_iff.mp tables
    exact ⟨decode?_of_readHeader accepted, listsHeaders_of_readHeaders (readHeaders_of_read read)⟩
  names file opened nonempty := by
    obtain ⟨-, -, tables, -⟩ := ofBytes_eq_ok_iff.mp opened
    obtain ⟨-, read⟩ := readTables_eq_ok_iff.mp tables
    have lists := listsHeaders_of_readHeaders (readHeaders_of_read read)
    obtain ⟨entry, leads, content⟩ := exists_nameHeader (ofHeaders_of_ofBytes opened) nonempty
    rw [nameHeader?, Option.bind_eq_some_iff] at leads
    obtain ⟨reserved, first, stands⟩ := leads
    exact ⟨_, entry, (statesNameIndex_iff (lists.head first)).mpr rfl, stands,
      le_of_slice? content, content⟩
  symbolNames file opened := by
    have table := ofHeaders_of_ofBytes opened
    obtain ⟨-, rfl, -, found, lookup, kept⟩ := ofBytes_eq_ok_iff.mp opened
    refine ⟨found, ?_, kept⟩
    rw [lookUp_eq (not_missesNames_of_ofHeaders table), table]
    exact lookup

end ElfFile

/-- Every file that can be mapped is opened, or fails to be, as its bytes say. On a machine, where
some sums and products are checked and others are not, opening has the same outcome, and no step
traps. -/
theorem opens_as_stated {bytes : ByteArray} (small : bytes.size < 2 ^ 63) (path : String) :
    ElfFile.Opening path bytes ∧
    ((∃ error, Machine.File.ofBytes bytes = .ok (.error error) ∧
        ElfFile.ofBytes path bytes = .error error) ∨
      ∃ onMachine file, Machine.File.ofBytes bytes = .ok (.ok onMachine) ∧
        ElfFile.ofBytes path bytes = .ok file ∧ onMachine.Represents file) :=
  ⟨ElfFile.opening small path, Machine.File.ofBytes_cases small path⟩

/-- The header of a file whose section header table begins at the last byte that there can be. -/
def wrappingHeader : FileHeader :=
  { signedModule.fileHeader with sectionHeaderOffset := 0xffffffffffffffff }

/-- A file with nothing but this header. -/
def wrappingFile : ByteArray :=
  (Layout.toBytes wrappingHeader).toByteArray

/-- The file has the size of the header. -/
theorem size_wrappingFile : wrappingFile.size = 64 := by
  rw [wrappingFile, List.size_toByteArray, LawfulLayout.length_toBytes]
  rfl

/-- The table is not in the file, although a sum that wraps would put it there. -/
theorem badStart_wrappingFile : ElfFile.BadStart wrappingFile := by
  have stands : decode? FileHeader wrappingFile 0 = some wrappingHeader :=
    decode?_eq_some_iff.mpr (Placed.toByteArray_iff.mpr ⟨[], [], by simp, rfl⟩)
  have outside : wrappingFile.size < wrappingHeader.sectionHeaderOffset.toNat +
      64 * wrappingHeader.sectionHeaderCount.toNat := by
    rw [size_wrappingFile]
    decide +kernel
  have bad : SectionTable.BadTable wrappingFile wrappingHeader :=
    .outside _ (.field (by decide +kernel)) outside
  exact .table wrappingHeader stands (by decide +kernel) bad

/-- A module begins as it should, so its symbol names are looked up and it is opened, with the
headers and the names that were written. The file with nothing but a header is malformed. -/
theorem signedModule_opened_as_stated :
    signedModule.file.size < 2 ^ 63 ∧
    ElfFile.ofBytes "plain.ko" signedModule.file =
      .ok (signedModule.opened [⟨"alpha", 1, 16⟩] "plain.ko") ∧
    ElfFile.StartsLikeElf signedModule.file ∧ signedModule.file.data[4]? = some 2 ∧
    ¬ ElfFile.BadStart signedModule.file ∧
    (∃ header headers, decode? FileHeader signedModule.file 0 = some header ∧
      SectionTable.ListsHeaders signedModule.file header headers ∧
      ∀ error, ElfFile.lookUp signedModule.file header headers symbolNameSection ≠
        .error error) ∧
    SectionTable.ListsHeaders signedModule.file signedModule.fileHeader
      (signedModule.reservedHeader :: signedModule.sectionHeaders) ∧
    (∃ index entry,
      SectionTable.StatesNameIndex signedModule.file signedModule.fileHeader index ∧
      (signedModule.reservedHeader :: signedModule.sectionHeaders)[index]? = some entry ∧
      slice? signedModule.file entry.offset.toNat entry.size.toNat =
        some signedModule.nameBytes) ∧
    (∃ found, ElfFile.lookUp signedModule.file signedModule.fileHeader
        (signedModule.reservedHeader :: signedModule.sectionHeaders) symbolNameSection =
          .ok (some found) ∧
      found.data = (SymbolImage.names [⟨"alpha", 1, 16⟩]).toByteArray) ∧
    wrappingFile.size < 2 ^ 63 ∧
    ∃ fault, ElfFile.ofBytes "wrapped.ko" wrappingFile = .error (.malformed fault) := by
  have large := signedModule_contains.size_file_lt
  have small : wrappingFile.size < 2 ^ 63 := by
    rw [size_wrappingFile]
    decide
  have opened := signedModule_contains.ofBytes_file "plain.ko"
  obtain ⟨opening, -⟩ := opens_as_stated large "plain.ko"
  obtain ⟨wrapped, -⟩ := opens_as_stated small "wrapped.ko"
  have accepted : ∀ error, ElfFile.ofBytes "plain.ko" signedModule.file ≠ .error error := by
    rw [opened]
    simp
  obtain ⟨long, begins⟩ : 16 ≤ signedModule.file.size ∧
      signedModule.file.data.toList.take 4 = ElfFile.magic := by
    have begins := mt opening.notElf_iff.mpr (accepted _)
    rwa [not_or, Nat.not_lt, not_not] at begins
  have start := ElfFile.startsLikeElf_iff_take.mpr ⟨long, begins⟩
  have wide : signedModule.file.data[4]? = some 2 := by
    have inside : 4 < signedModule.file.data.size := by
      rw [ByteArray.size_data]
      omega
    have stands := Array.getElem?_eq_getElem inside
    by_contra other
    rw [stands, Option.some_inj] at other
    exact accepted _ ((opening.class_iff start _).mpr ⟨stands, other⟩)
  have good : ¬ ElfFile.BadStart signedModule.file := fun bad => by
    obtain ⟨fault, failed⟩ := opening.malformed start wide bad
    exact accepted _ failed
  obtain ⟨header, headers, stands, lists, decided⟩ := opening.decided start wide good
  obtain ⟨-, lists'⟩ := opening.headers _ opened
  obtain ⟨index, entry, chosen, named, -, names⟩ := opening.names _ opened (List.cons_ne_nil _ _)
  obtain ⟨found, lookup, kept⟩ := opening.symbolNames _ opened
  obtain ⟨found, rfl, content⟩ := Option.map_eq_some_iff.mp kept.symm
  dsimp only [FileImage.opened] at lists' chosen named names lookup
  have wrapped_start : ElfFile.StartsLikeElf wrappingFile := by
    rw [ElfFile.startsLikeElf_iff_take, size_wrappingFile, wrappingFile,
      List.toList_data_toByteArray]
    exact ⟨by decide, by decide +kernel⟩
  exact ⟨large, opened, start, wide, good, ⟨header, headers, stands, lists, fun error failed =>
      accepted error ((decided error).mpr failed)⟩, lists', ⟨index, entry, chosen, named, names⟩,
    ⟨found, lookup, content⟩, small,
    wrapped.malformed wrapped_start (by decide +kernel) badStart_wrappingFile⟩

end KernelExports
