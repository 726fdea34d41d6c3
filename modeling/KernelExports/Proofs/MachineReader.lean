import KernelExports.Proofs.MachineAccess
import KernelExports.Proofs.SectionLookup
import KernelExports.Proofs.SectionNames

/-!
# Reading a file on a machine

The steps that open an ELF file and look up its sections, with every index, range, sum and product
on words, and unchecked wherever an earlier check is relied on. The index of the section names is
checked once, when the file is opened, and so is the range of the symbol names, which is kept as a
pair of words. On a file that can be mapped no step traps, and each gives what the function of this
library gives.
-/

namespace KernelExports.Machine

/-- The file header, once class, version and data encoding are known to be supported. -/
def readHeader (data : ByteArray) : Run (Except Error FileHeader) := do
  if length data < 16 then return .error .notElf
  let start ← range data 0 4
  if start.data.toList ≠ ElfFile.magic then return .error .notElf
  let width ← byteAt data 4
  if width ≠ 2 then return .error (.unsupportedClass width)
  let version ← byteAt data 6
  if version ≠ 1 then return .error (.malformed (.version version))
  let encoding ← byteAt data 5
  if encoding ≠ 1 then return .error (.malformed (.encoding encoding))
  match record? FileHeader data 0 with
  | some header => return .ok header
  | none => return .error (.malformed .headerTruncated)

/-- The number of section headers. -/
def count (data : ByteArray) (header : FileHeader) : Except Malformation UInt64 :=
  if header.sectionHeaderCount = 0 then
    match record? SectionHeader data header.sectionHeaderOffset with
    | some first => .ok first.size
    | none => .error .sectionHeaderTruncated
  else .ok header.sectionHeaderCount.toUInt64

/-- A number of section headers that follow each other, from an index of the table on. -/
def headersFrom (data : ByteArray) (table : UInt64) :
    (number : Nat) → (index : UInt64) → Run (Except Malformation (List SectionHeader))
  | 0, _ => return .ok []
  | number + 1, index => do
    let step ← mul index 64
    let place ← add table step
    match record? SectionHeader data place with
    | none => return .error .sectionHeaderTruncated
    | some header =>
      match ← headersFrom data table number (index + 1) with
      | .error fault => return .error fault
      | .ok rest => return .ok (header :: rest)

/-- The section headers. -/
def readHeaders (data : ByteArray) (header : FileHeader) :
    Run (Except Malformation (List SectionHeader)) :=
  if header.sectionHeaderOffset = 0 then return .ok []
  else if header.sectionHeaderSize ≠ 64 then
    return .error (.sectionHeaderSize header.sectionHeaderSize)
  else
    match count data header with
    | .error fault => return .error fault
    | .ok number =>
      match mul? number 64 with
      | none => return .error .sectionTableOverflow
      | some size =>
        match add? header.sectionHeaderOffset size with
        | none => return .error .sectionTableTruncated
        | some stop =>
          if length data < stop then return .error .sectionTableTruncated
          else headersFrom data header.sectionHeaderOffset number.toNat 0

/-- The index of the section that holds the section names, 0 if there are no sections. -/
def nameIndex (header : FileHeader) (headers : List SectionHeader) :
    Run (Except Malformation UInt64) := do
  if headers.isEmpty then return .ok 0
  let index ←
    if header.sectionNameIndex = 0xffff then do
      let first ← elementAt headers 0
      pure first.link.toUInt64
    else pure header.sectionNameIndex.toUInt64
  if index = 0 ∨ headers.length ≤ index.toNat then return .error (.nameTableIndex index.toNat)
  return .ok index

/-- An open file. -/
structure File where
  /-- The whole content. -/
  bytes : ByteArray
  /-- The header at the start. -/
  header : FileHeader
  /-- The section header table. -/
  headers : List SectionHeader
  /-- The index of the section that holds the section names. -/
  nameIndex : UInt64
  /-- Start and stop of the symbol names, if the file has some. -/
  symbolNames : Option (UInt64 × UInt64)

namespace File

/-- The name of a section. -/
def sectionName (file : File) (name : UInt32) : Run (Except Malformation (List UInt8)) := do
  let table ← elementAt file.headers file.nameIndex
  match add? table.offset table.size with
  | none => return .error .nameTableOverflow
  | some stop =>
    if length file.bytes < stop then return .error .nameTableTruncated
    else if table.size ≤ name.toUInt64 then
      return .error (.sectionNameOffset name table.size.toNat)
    else do
      let names ← range file.bytes table.offset stop
      let rest ← rangeFrom names name.toUInt64
      match untilNul rest with
      | some found => return .ok found
      | none => return .error .sectionNameUnterminated

/-- The content of a section whose header has been found under a name. -/
def sectionContent (file : File) (name : String) (header : SectionHeader) :
    Run (Except Error Section) :=
  if header.type = SectionHeader.noBits then return .error (.strippedSection name)
  else if header.size = 0 then return .error (.malformed (.emptySection name))
  else
    match add? header.offset header.size with
    | none => return .error (.malformed (.sectionTruncated name header.offset header.size))
    | some stop =>
      if length file.bytes < stop then
        return .error (.malformed (.sectionTruncated name header.offset header.size))
      else do
        let stop ← add header.offset header.size
        let data ← range file.bytes header.offset stop
        return .ok ⟨name, header, data⟩

/-- The first section of a name among the given headers. -/
def findAmong (file : File) (name : String) :
    List SectionHeader → Run (Except Error (Option Section))
  | [] => return .ok none
  | header :: rest => do
    match ← file.sectionName header.name with
    | .error fault => return .error (.malformed fault)
    | .ok found =>
      if found = Utf8.encode name then
        match ← file.sectionContent name header with
        | .error error => return .error error
        | .ok content => return .ok (some content)
      else file.findAmong name rest

/-- The first section of a name, if there is one. -/
def find (file : File) (name : String) : Run (Except Error (Option Section)) :=
  file.findAmong name file.headers.tail

/-- Start and stop of the content of a section. -/
def rangeOf (found : Section) : Run (UInt64 × UInt64) := do
  let stop ← add found.header.offset (length found.data)
  return (found.header.offset, stop)

/-- The symbol names, in the range that was kept. -/
def keptNames (file : File) : Run (Option ByteArray) :=
  match file.symbolNames with
  | none => return none
  | some (start, stop) => do
    let content ← range file.bytes start stop
    return some content

/-- The file with the range of its symbol names. -/
def keepNames (file : File) : Run (Except Error File) := do
  match ← file.find symbolNameSection with
  | .error error => return .error error
  | .ok none => return .ok file
  | .ok (some found) => do
    let kept ← rangeOf found
    return .ok { file with symbolNames := some kept }

/-- The file with the given content. -/
def ofBytes (data : ByteArray) : Run (Except Error File) := do
  match ← readHeader data with
  | .error error => return .error error
  | .ok header =>
    match ← readHeaders data header with
    | .error fault => return .error (.malformed fault)
    | .ok headers =>
      match ← Machine.nameIndex header headers with
      | .error fault => return .error (.malformed fault)
      | .ok index => keepNames ⟨data, header, headers, index, none⟩

end File

/-- The file header is read without a trap. -/
theorem readHeader_eq {data : ByteArray} (small : data.size < 2 ^ 63) :
    readHeader data = .ok (ElfFile.readHeader data) := by
  rw [readHeader, ElfFile.readHeader]
  by_cases short : data.size < 16
  · rw [if_pos ((length_lt_iff small 16).mpr short), dif_pos short]
    rfl
  · have start : range data 0 4 = .ok (data.extract 0 4) :=
      range_eq_ok (by decide) (by change 4 ≤ data.size; omega)
    have width : byteAt data 4 = .ok data[4] := byteAt_eq_ok (by change 4 < data.size; omega)
    have version : byteAt data 6 = .ok data[6] := byteAt_eq_ok (by change 6 < data.size; omega)
    have encoding : byteAt data 5 = .ok data[5] := byteAt_eq_ok (by change 5 < data.size; omega)
    have header : record? FileHeader data 0 = decode? FileHeader data 0 :=
      record?_eq (by decide) small 0
    rw [if_neg (mt (length_lt_iff small 16).mp short), dif_neg short, start, width, version,
      encoding, header]
    simp only [ok_bind, pure_eq_ok]
    split
    · rfl
    · split
      · rfl
      · split
        · rfl
        · split
          · rfl
          · cases decode? FileHeader data 0 <;> rfl

/-- The number of sections that a machine reads is the stated one. -/
theorem count_eq {data : ByteArray} (small : data.size < 2 ^ 63) (header : FileHeader) :
    (count data header).map UInt64.toNat = SectionTable.count data header := by
  rw [count, SectionTable.count, record?_eq (by decide) small]
  split
  · cases decode? SectionHeader data header.sectionHeaderOffset.toNat <;> rfl
  · rfl

/-- The headers from an index on are read without a trap as long as all of them are in the file. -/
theorem headersFrom_eq {data : ByteArray} (small : data.size < 2 ^ 63) {table : UInt64}
    {number : Nat} {index : UInt64}
    (inside : table.toNat + (index.toNat + number) * 64 ≤ data.size) :
    headersFrom data table number index =
      .ok (.ok ((List.range' index.toNat number).map fun index =>
        Layout.ofBytes (data.extract (table.toNat + index * 64)
          (table.toNat + (index + 1) * 64)).data.toList)) := by
  induction number generalizing index with
  | zero => rfl
  | succ number ih =>
    have step : (UInt64.ofNat (index.toNat * 64)).toNat = index.toNat * (64 : UInt64).toNat :=
      UInt64.toNat_ofNat_of_lt' (by change _ < 2 ^ 64; omega)
    have place : (UInt64.ofNat (table.toNat + index.toNat * 64)).toNat =
        table.toNat + (UInt64.ofNat (index.toNat * 64)).toNat := by
      rw [step]
      exact UInt64.toNat_ofNat_of_lt' (by change _ < 2 ^ 64; omega)
    have next : (index + 1).toNat = index.toNat + 1 :=
      toNat_add_of_lt (by change index.toNat + 1 < 2 ^ 64; omega)
    have record : record? SectionHeader data (UInt64.ofNat (table.toNat + index.toNat * 64)) =
        some (Layout.ofBytes (data.extract (table.toNat + index.toNat * 64)
          (table.toNat + (index.toNat + 1) * 64)).data.toList) := by
      have size : Layout.size SectionHeader = 64 := rfl
      rw [record?_eq (by decide) small, place, step, decode?, slice?, size]
      change Option.map _ (if table.toNat + index.toNat * 64 + 64 ≤ data.size then _ else _) = _
      rw [if_pos (by omega), Option.map_some, Nat.add_mul, Nat.one_mul, Nat.add_assoc]
      rfl
    rw [headersFrom, mul_eq_ok_iff.mpr step, ok_bind, add_eq_ok_iff.mpr place, ok_bind, record]
    dsimp only
    rw [ih (by rw [next]; omega), next, List.range'_succ]
    rfl

/-- The headers of a table in the file are its records. -/
theorem headersFrom_zero {data : ByteArray} (small : data.size < 2 ^ 63) {table : UInt64}
    {number : Nat} {part : ByteArray} (found : slice? data table.toNat (number * 64) = some part) :
    headersFrom data table number 0 = .ok (.ok (records SectionHeader part)) := by
  have size := size_of_slice? found
  rw [slice?] at found
  split at found
  · next inside =>
    cases found
    have zero : (0 : UInt64).toNat = 0 := rfl
    have count : number * 64 / 64 = number := Nat.mul_div_cancel number (by decide)
    rw [headersFrom_eq small (by rw [zero]; omega), records, size]
    change _ = Except.ok (Except.ok ((List.range (number * 64 / 64)).map _))
    rw [count, zero, ← List.range_eq_range']
    apply congrArg (Except.ok ∘ Except.ok)
    apply List.map_congr_left
    intro index listed
    have lower := List.mem_range.mp listed
    have stop : table.toNat + (index + 1) * Layout.size SectionHeader ≤
        table.toNat + number * 64 := by
      change table.toNat + (index + 1) * 64 ≤ _
      omega
    rw [ByteArray.extract_extract, Nat.min_eq_left stop]
    rfl
  · cases found

/-- The section headers are read without a trap. -/
theorem readHeaders_eq {data : ByteArray} (small : data.size < 2 ^ 63) (header : FileHeader) :
    readHeaders data header = .ok (SectionTable.readHeaders data header) := by
  rw [readHeaders, SectionTable.readHeaders, ← count_eq small]
  split
  · rfl
  · split
    · rfl
    · cases count data header with
      | error fault => rfl
      | ok number =>
        simp only [Except.map]
        cases product : mul? number 64 with
        | none =>
          have large : addressCount ≤ number.toNat * 64 := mul?_eq_none_iff.mp product
          rw [if_pos large]
          rfl
        | some size =>
          have exact_size : size.toNat = number.toNat * 64 := mul?_eq_some_iff.mp product
          have fits : ¬ addressCount ≤ number.toNat * 64 := by
            rw [← exact_size]
            exact Nat.not_le.mpr size.toNat_lt
          rw [if_neg fits, ← exact_size]
          dsimp only
          cases checkedRange small header.sectionHeaderOffset size with
          | overflow sum _ missing =>
            rw [sum, missing]
            rfl
          | outside stop sum _ behind missing =>
            rw [sum, missing]
            exact if_pos behind
          | inside stop part sum _ before _ found _ =>
            rw [sum, found]
            rw [exact_size] at found
            dsimp only
            rw [if_neg before, headersFrom_zero small found]

/-- The index of the section names is checked against the table, so the header that stands there is
there whenever the table is not empty. The table is then larger than the reserved header. -/
inductive NameIndex (header : FileHeader) (headers : List SectionHeader) : Prop where
  /-- There are no sections. -/
  | empty (none : headers = [])
  /-- The check fails. -/
  | refused (fault : Malformation) (failed : nameIndex header headers = .ok (.error fault))
    (table : ∀ data, SectionTable.ofHeaders data header headers = .error fault)
  /-- The index leads to a header. -/
  | found (index : UInt64) (names : SectionHeader)
    (checked : nameIndex header headers = .ok (.ok index))
    (stands : headers[index.toNat]? = some names) (more : headers.tail ≠ [])
    (table : ∀ data, SectionTable.ofHeaders data header headers =
      (SectionTable.readNames data names).map fun content => ⟨headers, content⟩)

/-- Checking the index of the section names has one of these outcomes. -/
theorem nameIndex_cases (header : FileHeader) (headers : List SectionHeader) :
    NameIndex header headers := by
  cases headers with
  | nil => exact .empty rfl
  | cons first others =>
    obtain ⟨index, number, chosen⟩ : ∃ index : UInt64,
        index.toNat = SectionTable.nameIndex header first ∧
        nameIndex header (first :: others) =
          if index = 0 ∨ (first :: others).length ≤ index.toNat then
            .ok (.error (.nameTableIndex index.toNat))
          else .ok (.ok index) := by
      by_cases escape : header.sectionNameIndex = 0xffff
      · have number : first.link.toUInt64.toNat = SectionTable.nameIndex header first := by
          rw [SectionTable.nameIndex, if_pos escape, UInt32.toNat_toUInt64]
        exact ⟨first.link.toUInt64, number, by rw [nameIndex, if_pos escape]; rfl⟩
      · have number : header.sectionNameIndex.toUInt64.toNat =
            SectionTable.nameIndex header first := by
          rw [SectionTable.nameIndex, if_neg escape, UInt16.toNat_toUInt64]
        exact ⟨header.sectionNameIndex.toUInt64, number, by
          rw [nameIndex, if_neg escape]; rfl⟩
    have zero : index = 0 ↔ index.toNat = 0 := by
      rw [← UInt64.toNat_inj]
      rfl
    have checked : index = 0 ∨ (first :: others).length ≤ index.toNat ↔
        SectionTable.MissesNames header (first :: others) := by
      rw [zero, number]
      constructor
      · exact fun bad => ⟨first, rfl, bad⟩
      · rintro ⟨reserved, leads, bad⟩
        cases leads
        exact bad
    by_cases misses : SectionTable.MissesNames header (first :: others)
    · rw [if_pos (checked.mpr misses), number] at chosen
      obtain ⟨reserved, leads, table⟩ := SectionTable.ofHeaders_of_missesNames misses
      cases leads
      exact .refused _ chosen table
    · rw [if_neg (mt checked.mp misses)] at chosen
      obtain ⟨names, stands, more, table⟩ :=
        (SectionTable.nameHeader_cases misses).resolve_left (List.cons_ne_nil _ _)
      rw [SectionTable.nameHeader?, List.head?_cons, Option.bind_some, ← number] at stands
      exact .found index names chosen stands more table

namespace File

/-- Where the section names of a file stand. -/
structure NamesAt (file : File) (table : SectionHeader) : Prop where
  /-- The file can be mapped. -/
  small : file.bytes.size < 2 ^ 63
  /-- The header of the names stands at the index that was checked. -/
  stands : file.headers[file.nameIndex.toNat]? = some table

/-- Reading the name of a section does not trap. -/
theorem sectionName_eq {file : File} {table : SectionHeader} (at_index : file.NamesAt table)
    (header : SectionHeader) :
    file.sectionName header.name =
      .ok (match SectionTable.readNames file.bytes table with
        | .error fault => .error fault
        | .ok names => SectionTable.nameOf names header) := by
  rw [sectionName, SectionTable.readNames, elementAt_eq_ok at_index.stands, ok_bind]
  cases checkedRange at_index.small table.offset table.size with
  | overflow sum large _ =>
    rw [sum, if_pos large]
    rfl
  | outside stop sum word behind missing =>
    rw [sum, if_neg (Nat.not_le.mpr word), missing]
    exact if_pos behind
  | inside stop names sum word before _ found content =>
    have size := size_of_slice? found
    rw [sum, if_neg (Nat.not_le.mpr word), found]
    dsimp only
    rw [if_neg before, SectionTable.nameOf]
    by_cases inside : header.name.toNat < names.size
    · have start : header.name.toUInt64.toNat ≤ names.size := by
        rw [UInt32.toNat_toUInt64]
        omega
      have lower : ¬ table.size ≤ header.name.toUInt64 := by
        rw [UInt64.le_iff_toNat_le, UInt32.toNat_toUInt64]
        omega
      rw [if_neg lower, content, ok_bind, rangeFrom_eq_ok start, ok_bind, UInt32.toNat_toUInt64,
        entry_eq_untilNul inside]
      cases untilNul (names.extract header.name.toNat names.size) <;> rfl
    · have upper : table.size ≤ header.name.toUInt64 := by
        rw [UInt64.le_iff_toNat_le, UInt32.toNat_toUInt64]
        omega
      rw [if_pos upper, StringTable.entry_outside (by omega), size]
      rfl

/-- The content of a section is read without a trap. The sum that is not checked was checked just
before. -/
theorem sectionContent_eq {file : File} (small : file.bytes.size < 2 ^ 63) (name : String)
    (header : SectionHeader) :
    file.sectionContent name header = .ok (ElfFile.readSection file.bytes name header) := by
  rw [sectionContent, ElfFile.readSection]
  split
  · rfl
  · split
    · rfl
    · cases checkedRange small header.offset header.size with
      | overflow sum _ missing =>
        rw [sum, missing]
        rfl
      | outside stop sum _ behind missing =>
        rw [sum, missing]
        exact if_pos behind
      | inside stop part sum _ before again found content =>
        rw [sum, found]
        dsimp only
        rw [if_neg before, again, ok_bind, content]
        rfl

/-- A walk over section headers does not trap, and it stops where the search of this library does.
-/
theorem findAmong_eq {file : File} {table : SectionHeader} (at_index : file.NamesAt table)
    {names : ByteArray} (read : SectionTable.readNames file.bytes table = .ok names)
    (name : String) (headers : List SectionHeader) :
    file.findAmong name headers =
      .ok (match SectionTable.firstNamed names (Utf8.encode name) headers with
        | .error fault => .error (.malformed fault)
        | .ok none => .ok none
        | .ok (some header) =>
          match ElfFile.readSection file.bytes name header with
          | .error error => .error error
          | .ok found => .ok (some found)) := by
  induction headers with
  | nil => rfl
  | cons header rest ih =>
    rw [findAmong, SectionTable.firstNamed, sectionName_eq at_index, read, ok_bind]
    dsimp only
    cases SectionTable.nameOf names header with
    | error fault => rfl
    | ok found =>
      dsimp only
      by_cases same : found = Utf8.encode name
      · rw [if_pos same, if_pos same, sectionContent_eq at_index.small, ok_bind]
        dsimp only
        cases ElfFile.readSection file.bytes name header <;> rfl
      · rw [if_neg same, if_neg same, ih]

/-- The file has sections under these names, or it has no sections. -/
def HasNames (file : File) (names : ByteArray) : Prop :=
  file.headers = [] ∨
    ∃ table, file.NamesAt table ∧ SectionTable.readNames file.bytes table = .ok names

/-- A lookup does not trap. -/
theorem find_eq {file : File} {names : ByteArray} (has_names : file.HasNames names)
    (name : String) :
    file.find name = .ok (ElfFile.findIn file.bytes ⟨file.headers, names⟩ name) := by
  rcases has_names with empty | ⟨table, at_index, read⟩
  · rw [find, empty]
    rfl
  · rw [find, findAmong_eq at_index read]
    rfl

/-- The same file, on a machine and in this library. -/
structure Represents (file : File) (elf : ElfFile) : Prop where
  /-- The file can be mapped. -/
  small : file.bytes.size < 2 ^ 63
  /-- The bytes are the same. -/
  bytes : file.bytes = elf.bytes
  /-- The header is the same. -/
  header : file.header = elf.header
  /-- The section headers are the same. -/
  headers : file.headers = elf.sections.headers
  /-- The section names are where the machine looks for them. -/
  names : file.HasNames elf.sections.names
  /-- The range that was kept holds the symbol names. -/
  kept : file.keptNames = .ok elf.symbolNames

/-- A lookup on a machine does not trap, and it has the same result. -/
theorem Represents.find_eq {file : File} {elf : ElfFile} (same : file.Represents elf)
    (name : String) : file.find name = .ok (elf.find name) := by
  rw [File.find_eq same.names, ElfFile.find, same.bytes, same.headers]

/-- The range of a section that was found is kept without a trap, and it is still there later. -/
theorem rangeOf_eq (file : File) {table : SectionTable} {name : String} {found : Section}
    (small : file.bytes.size < 2 ^ 63)
    (lookup : ElfFile.findIn file.bytes table name = .ok (some found)) :
    ∃ kept, rangeOf found = .ok kept ∧
      keptNames { file with symbolNames := some kept } = .ok (some found.data) := by
  have held := (ElfFile.findIn_eq_some_iff.mp lookup).2
  have slice := slice?_eq_some_iff.mpr ⟨held.size, held.placed⟩
  have same : length found.data = found.header.size := by
    rw [length, held.size, UInt64.ofNat_toNat]
  cases checkedRange small found.header.offset found.header.size with
  | overflow _ _ missing =>
    rw [missing] at slice
    cases slice
  | outside _ _ _ _ missing =>
    rw [missing] at slice
    cases slice
  | inside stop part _ _ _ again slice' content =>
    rw [slice, Option.some_inj] at slice'
    have range : rangeOf found = .ok (found.header.offset, stop) := by
      rw [rangeOf, same, again]
      rfl
    have still : keptNames { file with symbolNames := some (found.header.offset, stop) } =
        .ok (some found.data) := by
      rw [keptNames]
      dsimp only
      rw [content, slice']
      rfl
    exact ⟨_, range, still⟩

/-- The symbol names are looked up without a trap, and those that are found are kept. -/
theorem keepNames_cases {file : File} {names : ByteArray} (small : file.bytes.size < 2 ^ 63)
    (has_names : file.HasNames names) (fresh : file.symbolNames = none) :
    (∃ error, keepNames file = .ok (.error error) ∧
      ElfFile.findIn file.bytes ⟨file.headers, names⟩ symbolNameSection = .error error) ∨
    ∃ kept found, keepNames file = .ok (.ok { file with symbolNames := kept }) ∧
      ElfFile.findIn file.bytes ⟨file.headers, names⟩ symbolNameSection = .ok found ∧
      keptNames { file with symbolNames := kept } = .ok (found.map Section.data) := by
  rw [keepNames, find_eq has_names, ok_bind]
  cases lookup : ElfFile.findIn file.bytes ⟨file.headers, names⟩ symbolNameSection with
  | error error => exact .inl ⟨error, rfl, rfl⟩
  | ok found =>
    cases found with
    | none => exact .inr ⟨none, none, by rw [← fresh]; rfl, rfl, rfl⟩
    | some found =>
      obtain ⟨kept, range, still⟩ := rangeOf_eq file small lookup
      dsimp only
      rw [range]
      exact .inr ⟨some kept, some found, rfl, rfl, still⟩

/-- A file is opened without a trap, if and as this library opens it. Where the section names are
not in the file, the first name that is looked up finds that out. -/
theorem ofBytes_cases {data : ByteArray} (small : data.size < 2 ^ 63) (path : String) :
    (∃ error, ofBytes data = .ok (.error error) ∧ ElfFile.ofBytes path data = .error error) ∨
      ∃ file elf, ofBytes data = .ok (.ok file) ∧ ElfFile.ofBytes path data = .ok elf ∧
        file.Represents elf := by
  rw [ofBytes, ElfFile.ofBytes, ElfFile.readTables, readHeader_eq small, ok_bind]
  cases ElfFile.readHeader data with
  | error error => exact .inl ⟨error, rfl, rfl⟩
  | ok header =>
    dsimp only
    rw [readHeaders_eq small, SectionTable.read, ok_bind]
    cases SectionTable.readHeaders data header with
    | error fault => exact .inl ⟨_, rfl, rfl⟩
    | ok headers =>
      dsimp only
      cases nameIndex_cases header headers with
      | empty none =>
        subst none
        exact .inr ⟨_, _, rfl, rfl, small, rfl, rfl, rfl, .inl rfl, rfl⟩
      | refused fault failed table =>
        rw [failed, table, ok_bind]
        exact .inl ⟨_, rfl, rfl⟩
      | found index names checked stands more table =>
        have at_index : NamesAt ⟨data, header, headers, index, none⟩ names := ⟨small, stands⟩
        rw [checked, table, ok_bind]
        dsimp only
        cases read : SectionTable.readNames data names with
        | error fault =>
          obtain ⟨second, rest, split⟩ := List.exists_cons_of_ne_nil more
          have failed : keepNames ⟨data, header, headers, index, none⟩ =
              .ok (.error (.malformed fault)) := by
            rw [keepNames, find, split, findAmong, sectionName_eq at_index, read]
            rfl
          exact .inl ⟨_, failed, rfl⟩
        | ok content =>
          dsimp only [Except.map]
          rcases keepNames_cases small (.inr ⟨names, at_index, read⟩) rfl with
            ⟨error, failed, lookup⟩ | ⟨kept, found, opened, lookup, still⟩
          · rw [failed, lookup]
            exact .inl ⟨error, rfl, rfl⟩
          · rw [opened, lookup]
            exact .inr ⟨_, _, rfl, rfl, small, rfl, rfl, rfl,
              .inr ⟨names, ⟨small, stands⟩, read⟩, still⟩

end File

end KernelExports.Machine
