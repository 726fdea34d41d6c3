import KernelExports.Proofs.AppendedData
import KernelExports.Proofs.SharedBytes

/-!
# Extended section numbering

How many section headers there are, and under which index the names of the sections stand, is stated
in the file header or, with extended numbering, in the first section header. The numbers can be
moved from the one place to the other in a file whose sections leave both places alone. Nothing else
that is read from the file changes, and a file that is refused is refused with the same error.
-/

namespace KernelExports

open StringTable

/-- A file with other bytes written over those at an offset. -/
def overwrite (data : ByteArray) (offset : Nat) (content : List UInt8) : ByteArray :=
  (data.data.toList.take offset ++
    (content ++ data.data.toList.drop (offset + content.length))).toByteArray

section Overwriting

variable {data : ByteArray} {offset : Nat} {content : List UInt8}
  (inside : offset + content.length ≤ data.size)

include inside

/-- There are as many bytes before the overwritten ones as the offset says. -/
theorem length_take_overwritten : (data.data.toList.take offset).length = offset := by
  rw [List.length_take, length_toList_data, Nat.min_eq_left (by omega)]

/-- Overwriting does not change the size. -/
theorem size_overwrite : (overwrite data offset content).size = data.size := by
  rw [overwrite, List.size_toByteArray, List.length_append, List.length_append, List.length_take,
    List.length_drop, length_toList_data]
  omega

/-- The new content stands where the old one stood. -/
theorem placed_overwrite : Placed (overwrite data offset content) offset content :=
  Placed.toByteArray_iff.mpr ⟨_, _, rfl, length_take_overwritten inside⟩

/-- The bytes in front of the range and behind it stay. -/
theorem getElem?_overwrite {index : Nat}
    (outside : index < offset ∨ offset + content.length ≤ index) :
    data.data[index]? = (overwrite data offset content).data[index]? := by
  have start := length_take_overwritten inside
  rw [← Array.getElem?_toList, ← Array.getElem?_toList, overwrite, List.toList_data_toByteArray]
  rcases outside with before | behind
  · rw [List.getElem?_append_left (by omega), List.getElem?_take_of_lt before]
  · have place : offset + content.length + (index - offset - content.length) = index := by omega
    rw [List.getElem?_append_right (by omega), List.getElem?_append_right (by omega), start,
      List.getElem?_drop, place]

end Overwriting

namespace FileHeader

/-- A file header that leaves the numbers to the first section header. -/
def withoutNumbers (header : FileHeader) : FileHeader :=
  { header with sectionHeaderCount := 0, sectionNameIndex := 0xffff }

variable (header : FileHeader)

/-- A header without its numbers begins with the same bytes. -/
@[simp] theorem withoutNumbers_ident : header.withoutNumbers.ident = header.ident := rfl

/-- A header without its numbers leads to the same section headers. -/
@[simp] theorem withoutNumbers_sectionHeaderOffset :
    header.withoutNumbers.sectionHeaderOffset = header.sectionHeaderOffset := rfl

/-- The size of the section headers is none of the numbers. -/
@[simp] theorem withoutNumbers_sectionHeaderSize :
    header.withoutNumbers.sectionHeaderSize = header.sectionHeaderSize := rfl

/-- Zero stands for a number of sections that is written elsewhere. -/
@[simp] theorem withoutNumbers_sectionHeaderCount :
    header.withoutNumbers.sectionHeaderCount = 0 := rfl

/-- The largest index stands for one that is written elsewhere. -/
@[simp] theorem withoutNumbers_sectionNameIndex :
    header.withoutNumbers.sectionNameIndex = 0xffff := rfl

end FileHeader

/-- A first section header that holds the numbers of a file header. -/
def SectionHeader.withNumbers (first : SectionHeader) (header : FileHeader) : SectionHeader :=
  { first with
    size := header.sectionHeaderCount.toUInt64
    link := header.sectionNameIndex.toUInt32 }

/-- The file with the numbers moved from its header to its first section header. -/
def extendNumbering (bytes : ByteArray) (header : FileHeader) (first : SectionHeader) :
    ByteArray :=
  overwrite (overwrite bytes 0 (Layout.toBytes header.withoutNumbers))
    header.sectionHeaderOffset.toNat (Layout.toBytes (first.withNumbers header))

/-- The section has no byte in a range of the file. -/
def SectionHeader.Avoids (entry : SectionHeader) (start length : Nat) : Prop :=
  ∀ index, entry.offset.toNat ≤ index → index < entry.offset.toNat + entry.size.toNat →
    index < start ∨ start + length ≤ index

/-- The numbers stand in the file header, and no section has bytes in the file header or in the
first section header. -/
structure HasPlainNumbers (bytes : ByteArray) (header : FileHeader) (first : SectionHeader) :
    Prop where
  /-- The file starts with the header. -/
  starts : decode? FileHeader bytes 0 = some header
  /-- The section header table starts with the first section header. -/
  leads : decode? SectionHeader bytes header.sectionHeaderOffset.toNat = some first
  /-- The number of section headers is stated. -/
  count : header.sectionHeaderCount ≠ 0
  /-- The index of the section names is stated. -/
  index : header.sectionNameIndex ≠ 0xffff
  /-- The table starts behind the file header. -/
  behind : 64 ≤ header.sectionHeaderOffset.toNat
  /-- The sections with content in the file, and the section names, leave both headers alone. -/
  apart : ∀ headers index entry, SectionTable.readHeaders bytes header = .ok headers →
    1 ≤ index → headers[index]? = some entry →
    entry.type ≠ SectionHeader.noBits ∨ index = header.sectionNameIndex.toNat →
      entry.Avoids 0 64 ∧ entry.Avoids header.sectionHeaderOffset.toNat 64

namespace HasPlainNumbers

variable {bytes : ByteArray} {header : FileHeader} {first : SectionHeader}
  (plain : HasPlainNumbers bytes header first)

include plain

/-- There is room for both headers. -/
theorem room : 64 ≤ bytes.size ∧ header.sectionHeaderOffset.toNat + 64 ≤ bytes.size := by
  have start := (decode?_eq_some_iff.mp plain.starts).le
  have table := (decode?_eq_some_iff.mp plain.leads).le
  rw [LawfulLayout.length_toBytes] at start table
  exact ⟨(Nat.zero_add 64).symm ▸ start, table⟩

/-- A file with plain numbers has a section header table. -/
theorem somewhere : header.sectionHeaderOffset ≠ 0 := by
  intro nowhere
  have behind := plain.behind
  rw [nowhere] at behind
  exact absurd behind (by decide)

/-- A file with plain numbers has a section at least. -/
theorem count_pos : 0 < header.sectionHeaderCount.toNat :=
  Nat.pos_of_ne_zero fun zero => plain.count (UInt16.toNat_inj.mp zero)

/-- Both writes stay inside the file. -/
theorem writes_fit :
    0 + (Layout.toBytes header.withoutNumbers).length ≤ bytes.size ∧
      header.sectionHeaderOffset.toNat + (Layout.toBytes (first.withNumbers header)).length ≤
        (overwrite bytes 0 (Layout.toBytes header.withoutNumbers)).size := by
  obtain ⟨start, table⟩ := plain.room
  have header_fits : 0 + (Layout.toBytes header.withoutNumbers).length ≤ bytes.size := by
    rw [LawfulLayout.length_toBytes, Nat.zero_add]
    exact start
  rw [size_overwrite header_fits, LawfulLayout.length_toBytes (first.withNumbers header)]
  exact ⟨header_fits, table⟩

/-- Moving the numbers does not change the size of the file. -/
theorem size_extended : (extendNumbering bytes header first).size = bytes.size := by
  rw [extendNumbering, size_overwrite plain.writes_fit.2, size_overwrite plain.writes_fit.1]

/-- Bytes outside both headers stay. -/
theorem getElem?_extended {index : Nat} (behind : 64 ≤ index)
    (outside : index < header.sectionHeaderOffset.toNat ∨
      header.sectionHeaderOffset.toNat + 64 ≤ index) :
    bytes.data[index]? = (extendNumbering bytes header first).data[index]? := by
  obtain ⟨header_fits, first_fits⟩ := plain.writes_fit
  rw [getElem?_overwrite header_fits, extendNumbering, getElem?_overwrite first_fits]
  · rwa [LawfulLayout.length_toBytes]
  · rw [LawfulLayout.length_toBytes]
    exact .inr ((Nat.zero_add 64).symm ▸ behind)

/-- A range that leaves both headers alone keeps its bytes. -/
theorem sameIn_of_avoids {entry : SectionHeader}
    (apart : entry.Avoids 0 64 ∧ entry.Avoids header.sectionHeaderOffset.toNat 64) :
    SameIn bytes (extendNumbering bytes header first) entry.offset.toNat entry.size.toNat := by
  intro index start stop
  have behind : 64 ≤ index := by
    rcases apart.1 index start stop with before | behind
    · exact absurd before (Nat.not_lt_zero index)
    · omega
  exact plain.getElem?_extended behind (apart.2 index start stop)

/-- The file header without the numbers stands at the start. -/
theorem starts_extended :
    decode? FileHeader (extendNumbering bytes header first) 0 = some header.withoutNumbers := by
  obtain ⟨header_fits, first_fits⟩ := plain.writes_fit
  have length : (extendNumbering bytes header first).size =
      (overwrite bytes 0 (Layout.toBytes header.withoutNumbers)).size :=
    size_overwrite first_fits
  have same : SameIn (overwrite bytes 0 (Layout.toBytes header.withoutNumbers))
      (extendNumbering bytes header first) 0 64 := by
    intro index _ inside
    have behind := plain.behind
    exact getElem?_overwrite first_fits (.inl (by omega))
  rw [decode?_congr length same, decode?_eq_some_iff]
  exact placed_overwrite header_fits

/-- The section header with the numbers stands at the start of the section header table. -/
theorem leads_extended :
    decode? SectionHeader (extendNumbering bytes header first)
      header.sectionHeaderOffset.toNat = some (first.withNumbers header) :=
  decode?_eq_some_iff.mpr (placed_overwrite plain.writes_fit.2)

/-- The file does change. -/
theorem extended_ne : extendNumbering bytes header first ≠ bytes := by
  intro same
  have starts := plain.starts_extended
  rw [same, plain.starts, Option.some.injEq] at starts
  have count := congrArg FileHeader.sectionHeaderCount starts
  exact plain.count count

/-- What stands in front of the fields of the file header stays. -/
theorem sameIn_ident : SameIn bytes (extendNumbering bytes header first) 0 16 := by
  have ident : ∀ {data : ByteArray} {found : FileHeader}, decode? FileHeader data 0 = some found →
      Placed data 0 found.ident.toList := by
    intro data found starts
    have placed := decode?_eq_some_iff.mp starts
    simp only [Layout.toBytes, FileHeader.toBytes, List.append_assoc] at placed
    exact (Placed.append_iff.mp placed).1
  have ident' := ident plain.starts_extended
  rw [FileHeader.withoutNumbers_ident] at ident'
  have same := (ident plain.starts).sameIn ident'
  rwa [Vector.length_toList] at same

/-- The same number of section headers is found in its new place. -/
theorem count_eq :
    SectionTable.count bytes header = .ok header.sectionHeaderCount.toNat ∧
      SectionTable.count (extendNumbering bytes header first) header.withoutNumbers =
        .ok header.sectionHeaderCount.toNat := by
  constructor
  · rw [SectionTable.count, if_neg plain.count]
  · rw [SectionTable.count, FileHeader.withoutNumbers_sectionHeaderCount, if_pos rfl,
      FileHeader.withoutNumbers_sectionHeaderOffset, plain.leads_extended]
    dsimp only [SectionHeader.withNumbers]
    rw [UInt16.toNat_toUInt64]

/-- So the section headers that are read are not none. -/
theorem headers_ne_nil {headers : List SectionHeader}
    (listed : SectionTable.readHeaders bytes header = .ok headers) : headers ≠ [] := by
  obtain ⟨-, counted, -⟩ := (SectionTable.readHeaders_eq_ok_iff plain.somewhere).mp listed
  rw [plain.count_eq.1, Except.ok.injEq] at counted
  exact List.ne_nil_of_length_pos (counted ▸ plain.count_pos)

/-- A section header table differs in its first header only. -/
theorem records_extended {size : Nat} {table table' : ByteArray} (positive : 64 ≤ size)
    (found : slice? bytes header.sectionHeaderOffset.toNat size = some table)
    (found' : slice? (extendNumbering bytes header first)
      header.sectionHeaderOffset.toNat size = some table') :
    records SectionHeader table' =
      first.withNumbers header :: (records SectionHeader table).tail := by
  apply List.ext_getElem?
  intro index
  rw [getElem?_records (by decide)]
  cases index with
  | zero =>
    have within : 0 + Layout.size SectionHeader ≤ size := (Nat.zero_add 64).symm ▸ positive
    rw [Nat.mul_zero, decode?_of_slice? found' within, Nat.add_zero, plain.leads_extended,
      List.getElem?_cons_zero]
  | succ index =>
    rw [List.getElem?_cons_succ, List.getElem?_tail, getElem?_records (by decide)]
    by_cases within : Layout.size SectionHeader * (index + 1) + Layout.size SectionHeader ≤ size
    · rw [decode?_of_slice? found' within, decode?_of_slice? found within]
      refine decode?_congr plain.size_extended ?_
      intro place start _
      have behind := plain.behind
      change header.sectionHeaderOffset.toNat + 64 * (index + 1) ≤ place at start
      exact plain.getElem?_extended (by omega) (.inr (by omega))
    · rw [decode?_eq_none_iff.mpr (by rw [size_of_slice? found']; omega),
        decode?_eq_none_iff.mpr (by rw [size_of_slice? found]; omega)]

/-- The section headers are read as before but for the first one, or refused as before. -/
theorem readHeaders_extended :
    SectionTable.readHeaders (extendNumbering bytes header first) header.withoutNumbers =
      (SectionTable.readHeaders bytes header).map fun headers =>
        first.withNumbers header :: headers.tail := by
  obtain ⟨counted, counted'⟩ := plain.count_eq
  have positive := plain.count_pos
  rw [SectionTable.readHeaders, SectionTable.readHeaders, counted, counted',
    FileHeader.withoutNumbers_sectionHeaderOffset, FileHeader.withoutNumbers_sectionHeaderSize,
    if_neg plain.somewhere, if_neg plain.somewhere]
  split
  · rfl
  · dsimp only
    split
    · rfl
    · cases found : slice? bytes header.sectionHeaderOffset.toNat
        (header.sectionHeaderCount.toNat * 64) with
      | none =>
        rw [slice?_eq_none_iff, ← plain.size_extended, ← slice?_eq_none_iff] at found
        rw [found]
        rfl
      | some table =>
        cases found' : slice? (extendNumbering bytes header first)
          header.sectionHeaderOffset.toNat (header.sectionHeaderCount.toNat * 64) with
        | none =>
          rw [slice?_eq_none_iff, plain.size_extended, ← slice?_eq_none_iff, found] at found'
          cases found'
        | some table' =>
          dsimp only
          rw [plain.records_extended (by omega) found found']
          rfl

/-- Both files have the section names under the same index. -/
theorem nameIndex_eq (reserved : SectionHeader) :
    SectionTable.nameIndex header reserved = header.sectionNameIndex.toNat ∧
      SectionTable.nameIndex header.withoutNumbers (first.withNumbers header) =
        header.sectionNameIndex.toNat := by
  constructor
  · rw [SectionTable.nameIndex, if_neg plain.index]
  · rw [SectionTable.nameIndex, FileHeader.withoutNumbers_sectionNameIndex, if_pos rfl]
    exact UInt16.toNat_toUInt32 _

/-- The section table is read as before but for its first header, or refused as before. -/
theorem read_extended :
    SectionTable.read (extendNumbering bytes header first) header.withoutNumbers =
      (SectionTable.read bytes header).map fun table =>
        ⟨first.withNumbers header :: table.headers.tail, table.names⟩ := by
  rw [SectionTable.read, SectionTable.read, plain.readHeaders_extended]
  cases listed : SectionTable.readHeaders bytes header with
  | error fault => rfl
  | ok headers =>
    cases headers with
    | nil =>
      exact absurd rfl (plain.headers_ne_nil listed)
    | cons reserved others =>
      obtain ⟨index, index'⟩ := plain.nameIndex_eq reserved
      have names : ∀ before entry, SectionTable.nameIndex header reserved = before + 1 →
          others[before]? = some entry →
            SectionTable.readNames (extendNumbering bytes header first) entry =
              SectionTable.readNames bytes entry := by
        intro before entry place stands
        refine SectionTable.readNames_congr plain.size_extended (plain.sameIn_of_avoids ?_)
        exact plain.apart _ (before + 1) entry listed (Nat.succ_pos before) stands
          (.inr (place.symm.trans index))
      dsimp only [Except.map, List.tail_cons]
      rw [SectionTable.ofHeaders_congr (index'.trans index.symm) names]
      cases read : SectionTable.ofHeaders bytes header (reserved :: others) with
      | error fault => rfl
      | ok table =>
        dsimp only [Except.map]
        rw [SectionTable.headers_of_ofHeaders read, List.tail_cons]

/-- So are the file header and the section table. -/
theorem readTables_extended :
    ElfFile.readTables (extendNumbering bytes header first) =
      (ElfFile.readTables bytes).map fun (_, table) =>
        (header.withoutNumbers, ⟨first.withNumbers header :: table.headers.tail, table.names⟩) := by
  rw [ElfFile.readTables, ElfFile.readTables]
  rcases ElfFile.readHeader_congr plain.size_extended plain.sameIn_ident plain.starts
    plain.starts_extended with ⟨error, refused, refused'⟩ | ⟨read, read'⟩
  · rw [refused, refused']
    rfl
  · rw [read, read']
    dsimp only
    rw [plain.read_extended]
    cases SectionTable.read bytes header <;> rfl

/-- Every name is looked up with the same result. -/
theorem findIn_extended {table : SectionTable} (read : SectionTable.read bytes header = .ok table)
    (name : String) :
    ElfFile.findIn (extendNumbering bytes header first)
        ⟨first.withNumbers header :: table.headers.tail, table.names⟩ name =
      ElfFile.findIn bytes table name := by
  apply ElfFile.findIn_congr plain.size_extended
  · exact List.tail_cons
  · rfl
  · intro entry listed _ kept
    obtain ⟨index, stands⟩ := List.mem_iff_getElem?.mp listed
    rw [List.getElem?_tail] at stands
    exact plain.sameIn_of_avoids
      (plain.apart _ (index + 1) entry (SectionTable.readHeaders_of_read read) (Nat.succ_pos index)
        stands (.inl kept))

end HasPlainNumbers

/-- Two attempts to open a file fail with the same error, or give files in which a reader sees no
difference: they have as many sections, the same symbol names, and the same result for every name
that is looked up. -/
inductive OpensAlike : Except Error ElfFile → Except Error ElfFile → Prop
  /-- Both fail. -/
  | failed (error : Error) : OpensAlike (.error error) (.error error)
  /-- Both succeed. -/
  | opened {first second : ElfFile} (count : second.sectionCount = first.sectionCount)
    (symbolNames : second.symbolNames = first.symbolNames)
    (found : ∀ name, second.find name = first.find name) : OpensAlike (.ok first) (.ok second)

/-- What is extracted from files that open alike is the same. -/
theorem OpensAlike.readExports {files files' : FileSystem} {path path' : String}
    {bytes bytes' : ByteArray}
    (alike : OpensAlike (ElfFile.ofBytes path bytes) (ElfFile.ofBytes path' bytes'))
    (content : files path = .ok bytes) (content' : files' path' = .ok bytes') :
    KernelExports.readExports files' path' = KernelExports.readExports files path ∧
      readConfirmedExports files' path' = readConfirmedExports files path := by
  generalize opening : ElfFile.ofBytes path bytes = opened at alike
  generalize opening' : ElfFile.ofBytes path' bytes' = opened' at alike
  cases alike with
  | failed error =>
    have same : openElf files' path' = openElf files path := by
      rw [openElf, openElf, ElfFile.openAt, ElfFile.openAt, content, content']
      dsimp only
      rw [opening, opening']
    rw [KernelExports.readExports, KernelExports.readExports, readConfirmedExports,
      readConfirmedExports, same]
    exact ⟨rfl, rfl⟩
  | opened count symbolNames found =>
    exact ElfFile.ReadsLike.readExports ⟨found _, found _, symbolNames⟩
      (openElf_eq_some_iff.mpr ⟨bytes, content, opening⟩)
      (openElf_eq_some_iff.mpr ⟨bytes', content', opening'⟩)

/-- The file is opened like the one with its numbers moved. -/
theorem HasPlainNumbers.opensAlike {bytes : ByteArray} {header : FileHeader}
    {first : SectionHeader} (plain : HasPlainNumbers bytes header first) (path path' : String) :
    OpensAlike (ElfFile.ofBytes path bytes)
      (ElfFile.ofBytes path' (extendNumbering bytes header first)) := by
  rw [ElfFile.ofBytes, ElfFile.ofBytes, plain.readTables_extended]
  cases tables : ElfFile.readTables bytes with
  | error error => exact .failed error
  | ok both =>
    obtain ⟨header', table⟩ := both
    obtain ⟨accepted, read⟩ := ElfFile.readTables_eq_ok_iff.mp tables
    have starts := ElfFile.decode?_of_readHeader accepted
    rw [plain.starts, Option.some.injEq] at starts
    subst starts
    have found := plain.findIn_extended read
    have length : (first.withNumbers header :: table.headers.tail).length =
        table.headers.length := by
      rw [List.length_cons, List.length_tail]
      exact Nat.sub_add_cancel (List.length_pos_of_ne_nil
        (plain.headers_ne_nil (SectionTable.readHeaders_of_read read)))
    dsimp only [Except.map]
    rw [found symbolNameSection]
    cases ElfFile.findIn bytes table symbolNameSection with
    | error error => exact .failed error
    | ok names => exact .opened length rfl found

/-- Extended numbering is transparent. If the numbers of a section table stand in the file header,
and no section has bytes where the numbers stand or move to, then the file with the numbers in the
first section header is opened like the original, with the same error or with the same sections
under every name, and plain and confirming extraction give the same for both. -/
theorem extended_numbering_transparent {bytes : ByteArray} {header : FileHeader}
    {first : SectionHeader} (plain : HasPlainNumbers bytes header first) (path path' : String) :
    OpensAlike (ElfFile.ofBytes path bytes)
        (ElfFile.ofBytes path' (extendNumbering bytes header first)) ∧
      ∀ files files', files path = .ok bytes →
        files' path' = .ok (extendNumbering bytes header first) →
          readExports files' path' = readExports files path ∧
            readConfirmedExports files' path' = readConfirmedExports files path :=
  ⟨plain.opensAlike path path', fun _ _ => (plain.opensAlike path path').readExports⟩

namespace FileImage

/-- Contents stand between the position from which they are laid out and the end of the layout. -/
theorem positions_between (position : Nat) (contents : List (List UInt8)) :
    List.Forall₂
      (fun offset content => position ≤ offset ∧
        offset + content.length ≤ position + (body position contents).length)
      (positions position contents) contents := by
  induction contents generalizing position with
  | nil => exact .nil
  | cons content rest ih =>
    have start : aligned position = position + (padding position).length := rfl
    have length : (body position (content :: rest)).length = (padding position).length +
        content.length + (body (aligned position + content.length) rest).length := by
      rw [body, List.length_append, List.length_append]
    have behind := (ih (aligned position + content.length)).imp fun offset content' bounds =>
      show position ≤ offset ∧ offset + content'.length ≤
          position + (body position (content :: rest)).length by omega
    exact .cons (by omega) behind

/-- The sections of a written file with content in it stand between the file header and the section
header table. -/
theorem sectionHeaders_between {image : FileImage} (fits : image.Fits) :
    ∀ entry ∈ image.sectionHeaders, entry.type ≠ SectionHeader.noBits →
      64 ≤ entry.offset.toNat ∧
        entry.offset.toNat + entry.size.toNat ≤ image.tablePosition := by
  have between := positions_between headerSize image.contents
  rw [contents, List.forall₂_map_right_iff] at between
  have bounded : List.Forall₂
      (fun (entry : SectionHeader) (_ : SectionImage) => entry.type ≠ SectionHeader.noBits →
        64 ≤ entry.offset.toNat ∧ entry.offset.toNat + entry.size.toNat ≤ image.tablePosition)
      image.sectionHeaders image.allSections := by
    refine forall₂_map_zip ?_ (named_sections fits) between
    intro written position offset _ bounds kept
    have limit := (tablePosition_lt fits).2
    obtain ⟨start, stop⟩ := bounds
    change offset + written.content.length ≤ image.tablePosition at stop
    have offset_fits : (UInt64.ofNat offset).toNat = offset :=
      UInt64.toNat_ofNat_of_lt' (by change offset < 2 ^ 64; omega)
    have size_fits : (UInt64.ofNat written.content.length).toNat = written.content.length :=
      UInt64.toNat_ofNat_of_lt' (by change written.content.length < 2 ^ 64; omega)
    dsimp only [sectionHeader] at kept ⊢
    rw [if_neg kept, offset_fits, size_fits]
    exact ⟨start, stop⟩
  intro entry listed
  obtain ⟨index, inside, rfl⟩ := List.mem_iff_getElem.mp listed
  exact bounded.get inside (bounded.length_eq ▸ inside)

/-- A written file without extended numbering has its numbers in the file header. -/
theorem hasPlainNumbers {image : FileImage} (fits : image.Fits)
    (numbering : image.extended = false) :
    HasPlainNumbers image.file image.fileHeader image.reservedHeader := by
  have position := sectionHeaderOffset_file fits
  have few := fits.few
  have first := image.placed_headerBytes
  rw [headerBytes, List.flatMap_cons, Placed.append_iff, ← decode?_eq_some_iff] at first
  rw [headerCount] at few
  have count : image.fileHeader.sectionHeaderCount.toNat = image.sections.length + 2 := by
    simp only [fileHeader, numbering, Bool.false_eq_true, if_false]
    exact UInt16.toNat_ofNat_of_lt' few
  have index : image.fileHeader.sectionNameIndex.toNat = image.sections.length + 1 := by
    simp only [fileHeader, numbering, Bool.false_eq_true, if_false]
    exact UInt16.toNat_ofNat_of_lt' (by change image.sections.length + 1 < 65536; omega)
  constructor
  · exact ElfFile.decode?_of_readHeader (readHeader_file image)
  · rw [position]
    exact first.1
  · intro none
    rw [none] at count
    exact absurd count (Nat.ne_of_lt (Nat.succ_pos _))
  · intro escape
    rw [escape] at index
    change 65535 = _ at index
    omega
  · rw [position]
    exact Nat.le_add_right _ _
  · intro headers place entry listed positive stands read
    rw [readHeaders_file fits] at listed
    cases listed
    obtain ⟨before, rfl⟩ := Nat.exists_eq_add_of_le' positive
    rw [List.getElem?_cons_succ] at stands
    have kept : entry.type ≠ SectionHeader.noBits := by
      rcases read with kept | names
      · exact kept
      · obtain ⟨last, stands', described⟩ := exists_nameTable_header fits
        rw [index, Nat.add_right_cancel_iff] at names
        subst names
        obtain rfl := Option.some.inj (stands.symm.trans stands')
        rw [described.type]
        change (3 : UInt32) ≠ 8
        decide
    obtain ⟨start, stop⟩ := sectionHeaders_between fits entry (List.mem_of_getElem? stands) kept
    constructor
    · exact fun byte behind _ => .inr (by omega)
    · rw [position]
      exact fun byte _ inside => .inl (by omega)

end FileImage

/-- With the numbers of the module moved, its export is still found. -/
theorem signedModule_extended :
    HasPlainNumbers signedModule.file signedModule.fileHeader signedModule.reservedHeader ∧
    extendNumbering signedModule.file signedModule.fileHeader signedModule.reservedHeader ≠
      signedModule.file ∧
    ∃ plain,
      readExports (fun _ => .ok (extendNumbering signedModule.file signedModule.fileHeader
        signedModule.reservedHeader)) "extended.ko" = .ok (some plain) ∧
      plain.get? "alpha" = some ⟨"alpha", 0, false, none⟩ := by
  have contains := signedModule_contains
  have numbers := FileImage.hasPlainNumbers contains.fits rfl
  obtain ⟨plain, -, read, holds⟩ :=
    contains.exists_readExports (fun _ => .ok signedModule.file) "plain.ko" rfl
  obtain ⟨-, same⟩ := extended_numbering_transparent numbers "plain.ko" "extended.ko"
  obtain ⟨same_plain, -⟩ := same (fun _ => .ok signedModule.file)
    (fun _ => .ok (extendNumbering signedModule.file signedModule.fileHeader
      signedModule.reservedHeader)) rfl rfl
  exact ⟨numbers, numbers.extended_ne, plain, same_plain.trans read,
    (holds.record_iff _ _).mpr (by simp)⟩

end KernelExports
