import KernelExports.Proofs.ExtractionLaws

/-!
# Files that share bytes

Two files of the same size with the same bytes in a range have the same slice there, and so each
stage of reading gives the same for both if they share the bytes that it reads, failures included:
the file header, the section header table, the names of the sections, and the content of a section
that is looked up. Extraction looks at three sections only.
-/

namespace KernelExports

/-- The bytes in a range are the same, as far as there are any. -/
def SameIn (first second : ByteArray) (offset size : Nat) : Prop :=
  ∀ index, offset ≤ index → index < offset + size → first.data[index]? = second.data[index]?

/-- The same, as an equation between lists. -/
theorem sameIn_iff_take_drop {first second : ByteArray} {offset size : Nat} :
    SameIn first second offset size ↔
      (first.data.toList.drop offset).take size = (second.data.toList.drop offset).take size := by
  constructor
  · intro same
    apply List.ext_getElem?
    intro index
    rw [List.getElem?_take, List.getElem?_take]
    split
    · next inside =>
      rw [List.getElem?_drop, List.getElem?_drop, Array.getElem?_toList, Array.getElem?_toList]
      exact same (offset + index) (Nat.le_add_right _ _) (Nat.add_lt_add_left inside _)
    · rfl
  · intro same index behind inside
    have equal := congrArg (fun list => list[index - offset]?) same
    simp only [List.getElem?_take_of_lt (show index - offset < size by omega),
      List.getElem?_drop, Array.getElem?_toList] at equal
    rwa [Nat.add_sub_cancel' behind] at equal

/-- Data that is the same in a range is the same in a part of the range. -/
theorem SameIn.mono {first second : ByteArray} {offset size offset' size' : Nat}
    (same : SameIn first second offset size) (start : offset ≤ offset')
    (stop : offset' + size' ≤ offset + size) : SameIn first second offset' size' :=
  fun index behind inside => same index (start.trans behind) (inside.trans_le stop)

/-- Files in which the same bytes stand in a range share them. -/
theorem Placed.sameIn {first second : ByteArray} {offset : Nat} {content : List UInt8}
    (placed : Placed first offset content) (placed' : Placed second offset content) :
    SameIn first second offset content.length := by
  rw [sameIn_iff_take_drop, (iff_take_drop.mp placed).2, (iff_take_drop.mp placed').2]

section Slices

variable {first second : ByteArray} (length : second.size = first.size) {offset size : Nat}

include length

/-- Slices of data that is the same there are the same. -/
theorem slice?_congr (same : SameIn first second offset size) :
    slice? second offset size = slice? first offset size := by
  have bytes : second.extract offset (offset + size) = first.extract offset (offset + size) := by
    rw [← toList_data_inj, toList_data_extract_append, toList_data_extract_append]
    exact (sameIn_iff_take_drop.mp same).symm
  rw [slice?, slice?, length, bytes]

/-- Records of data that is the same there are the same. -/
theorem decode?_congr {α : Type} [Layout α] (same : SameIn first second offset (Layout.size α)) :
    decode? α second offset = decode? α first offset := by
  rw [decode?, decode?, slice?_congr length same]

end Slices

/-- A record inside a slice is a record of the file. -/
theorem decode?_of_slice? {α : Type} [Layout α] {data part : ByteArray} {offset size inner : Nat}
    (found : slice? data offset size = some part) (inside : inner + Layout.size α ≤ size) :
    decode? α part inner = decode? α data (offset + inner) := by
  obtain ⟨rfl, placed⟩ := slice?_eq_some_iff.mp found
  obtain ⟨bound, stands⟩ := Placed.iff_take_drop.mp placed
  rw [length_toList_data] at bound stands
  have bytes : part.extract inner (inner + Layout.size α) =
      data.extract (offset + inner) (offset + inner + Layout.size α) := by
    rw [← toList_data_inj, toList_data_extract_append, toList_data_extract_append, ← stands,
      List.drop_take, List.drop_drop, List.take_take, Nat.min_eq_left (by omega)]
  rw [decode?, decode?, slice?, slice?, if_pos inside, if_pos (by omega), bytes]

namespace SectionTable

/-- The headers that are read from a file whose table has a position. -/
theorem readHeaders_eq_ok_iff {bytes : ByteArray} {header : FileHeader}
    {headers : List SectionHeader} (somewhere : header.sectionHeaderOffset ≠ 0) :
    readHeaders bytes header = .ok headers ↔
      header.sectionHeaderSize = 64 ∧ count bytes header = .ok headers.length ∧
        headers.length * 64 < addressCount ∧
        ∃ table, slice? bytes header.sectionHeaderOffset.toNat (headers.length * 64) = some table ∧
          records SectionHeader table = headers := by
  have number_of : ∀ {number : Nat} {table : ByteArray},
      slice? bytes header.sectionHeaderOffset.toNat (number * 64) = some table →
        (records SectionHeader table).length = number := by
    intro number table found
    rw [records, List.length_map, List.length_range, size_of_slice? found]
    exact Nat.mul_div_cancel number (by decide)
  rw [readHeaders, if_neg somewhere]
  constructor
  · intro h
    split at h
    · cases h
    · next sized =>
      split at h
      · cases h
      · next number counted =>
        split at h
        · cases h
        · next fits =>
          split at h
          · next table found =>
            cases h
            rw [number_of found]
            exact ⟨not_not.mp sized, counted, Nat.not_le.mp fits, table, found, rfl⟩
          · cases h
  · rintro ⟨sized, counted, fits, table, found, read⟩
    rw [if_neg (not_not_intro sized), counted]
    dsimp only
    rw [if_neg (Nat.not_le.mpr fits), found]
    dsimp only
    rw [read]

/-- The reader of the names keeps the headers. -/
theorem headers_of_ofHeaders {bytes : ByteArray} {header : FileHeader}
    {headers : List SectionHeader} {table : SectionTable}
    (read : ofHeaders bytes header headers = .ok table) : table.headers = headers := by
  cases headers with
  | nil =>
    cases read
    rfl
  | cons reserved others =>
    rw [ofHeaders] at read
    repeat' split at read
    all_goals cases read
    rfl

/-- The headers of a section table are those that are read from the file. -/
theorem readHeaders_of_read {bytes : ByteArray} {header : FileHeader} {table : SectionTable}
    (h : read bytes header = .ok table) : readHeaders bytes header = .ok table.headers := by
  rw [read] at h
  split at h
  · cases h
  · next headers listed => rw [listed, headers_of_ofHeaders h]

section Congruence

variable {first second : ByteArray} (length : second.size = first.size)
  {header : FileHeader}

include length

/-- The stated number of sections depends on nothing but the first section header. -/
theorem count_congr (same : SameIn first second header.sectionHeaderOffset.toNat 64) :
    count second header = count first header := by
  have reserved : decode? SectionHeader second header.sectionHeaderOffset.toNat =
      decode? SectionHeader first header.sectionHeaderOffset.toNat := decode?_congr length same
  rw [count, count, reserved]

/-- The section names depend on nothing but the range of their header. -/
theorem readNames_congr {entry : SectionHeader}
    (same : SameIn first second entry.offset.toNat entry.size.toNat) :
    readNames second entry = readNames first entry := by
  rw [readNames, readNames, slice?_congr length same]

omit length in
/-- With the same index of the names and the same names, tables differ in the first header only. -/
theorem ofHeaders_congr {header' : FileHeader} {reserved reserved' : SectionHeader}
    {others : List SectionHeader}
    (index : nameIndex header' reserved' = nameIndex header reserved)
    (names : ∀ before entry, nameIndex header reserved = before + 1 →
      others[before]? = some entry → readNames second entry = readNames first entry) :
    ofHeaders second header' (reserved' :: others) =
      (ofHeaders first header (reserved :: others)).map fun table =>
        ⟨reserved' :: others, table.names⟩ := by
  rw [ofHeaders, ofHeaders, index]
  cases place : nameIndex header reserved with
  | zero => rfl
  | succ before =>
    dsimp only
    cases stands : others[before]? with
    | none => rfl
    | some entry =>
      dsimp only
      rw [names before entry place stands]
      cases readNames first entry <;> rfl

/-- Headers that could be read are read again where the table and the reserved header are shared. -/
theorem readHeaders_congr {headers : List SectionHeader}
    (read : readHeaders first header = .ok headers)
    (reserved : header.sectionHeaderOffset ≠ 0 →
      SameIn first second header.sectionHeaderOffset.toNat 64)
    (table : header.sectionHeaderOffset ≠ 0 →
      SameIn first second header.sectionHeaderOffset.toNat (headers.length * 64)) :
    readHeaders second header = .ok headers := by
  by_cases somewhere : header.sectionHeaderOffset = 0
  · rw [readHeaders, if_pos somewhere] at read ⊢
    exact read
  · rw [readHeaders_eq_ok_iff somewhere] at read ⊢
    rwa [count_congr length (reserved somewhere), slice?_congr length (table somewhere)]

end Congruence

end SectionTable

namespace ElfFile

/-- A header that was accepted stands at the start of the file. -/
theorem decode?_of_readHeader {bytes : ByteArray} {header : FileHeader}
    (read : readHeader bytes = .ok header) : decode? FileHeader bytes 0 = some header := by
  rw [readHeader] at read
  repeat' split at read
  all_goals cases read
  assumption

/-- Header and table are read one after the other. -/
theorem readTables_eq_ok_iff {bytes : ByteArray} {header : FileHeader} {table : SectionTable} :
    readTables bytes = .ok (header, table) ↔
      readHeader bytes = .ok header ∧ SectionTable.read bytes header = .ok table := by
  rw [readTables]
  constructor
  · intro h
    split at h
    · cases h
    · next accepted =>
      split at h
      · cases h
      · next read =>
        cases h
        exact ⟨accepted, read⟩
  · rintro ⟨accepted, read⟩
    rw [accepted]
    dsimp only
    rw [read]

section Congruence

variable {first second : ByteArray} (length : second.size = first.size)

include length

/-- Two file headers are both refused for what stands before their fields, or both read. -/
theorem readHeader_congr (same : SameIn first second 0 16) {header header' : FileHeader}
    (isHeader : decode? FileHeader first 0 = some header)
    (isHeader' : decode? FileHeader second 0 = some header') :
    (∃ error, readHeader first = .error error ∧ readHeader second = .error error) ∨
      readHeader first = .ok header ∧ readHeader second = .ok header' := by
  have start : second.extract 0 4 = first.extract 0 4 := by
    have shorter := sameIn_iff_take_drop.mp (same.mono (Nat.le_refl 0) (by decide : 0 + 4 ≤ 0 + 16))
    rw [← toList_data_inj, toList_data_extract_append second 0 4,
      toList_data_extract_append first 0 4, shorter]
  have byte : ∀ index (inside : index < first.size) (inside' : index < second.size), index < 16 →
      second[index] = first[index] := by
    intro index inside inside' lower
    have equal := same index (Nat.zero_le _) (by omega)
    rw [Array.getElem?_eq_getElem inside, Array.getElem?_eq_getElem inside', Option.some.injEq]
      at equal
    exact equal.symm
  by_cases short : first.size < 16
  · left
    rw [readHeader, readHeader, dif_pos short, dif_pos (length.symm ▸ short)]
    exact ⟨_, rfl, rfl⟩
  · have long : ¬ second.size < 16 := length.symm ▸ short
    rw [readHeader, readHeader, dif_neg short, dif_neg long, start, byte 4 (by omega) (by omega)
      (by decide), byte 5 (by omega) (by omega) (by decide),
      byte 6 (by omega) (by omega) (by decide), isHeader, isHeader']
    split
    · exact .inl ⟨_, rfl, rfl⟩
    · split
      · exact .inl ⟨_, rfl, rfl⟩
      · split
        · exact .inl ⟨_, rfl, rfl⟩
        · split
          · exact .inl ⟨_, rfl, rfl⟩
          · exact .inr ⟨rfl, rfl⟩

/-- The content of a section depends on the range of its header, if it has one. -/
theorem readSection_congr (name : String) {entry : SectionHeader}
    (same : entry.type ≠ SectionHeader.noBits →
      SameIn first second entry.offset.toNat entry.size.toNat) :
    readSection second name entry = readSection first name entry := by
  rw [readSection, readSection]
  split
  · rfl
  · next kept => rw [slice?_congr length (same kept)]

/-- A lookup gives the same if the sections behind the reserved one and their names are the same,
and so is the content of every section with the name that is looked up. -/
theorem findIn_congr {table table' : SectionTable}
    (others : table'.headers.tail = table.headers.tail) (names : table'.names = table.names)
    {name : String}
    (contents : ∀ entry ∈ table.headers.tail,
      StringTable.HasEntry table.names entry.name.toNat (Utf8.encode name) →
        entry.type ≠ SectionHeader.noBits →
          SameIn first second entry.offset.toNat entry.size.toNat) :
    findIn second table' name = findIn first table name := by
  have located : table'.locate name = table.locate name := by
    rw [SectionTable.locate, SectionTable.locate, others, names]
  rw [findIn, findIn, located]
  cases place : table.locate name with
  | error fault => rfl
  | ok found =>
    cases found with
    | none => rfl
    | some entry =>
      obtain ⟨before, after, split, -, named⟩ := SectionTable.firstNamed_eq_some_iff.mp place
      have listed : entry ∈ table.headers.tail := by
        rw [split]
        exact List.mem_append_right _ List.mem_cons_self
      dsimp only
      rw [readSection_congr length name (contents entry listed named)]

end Congruence

/-- All that extraction looks up in a file is the same in another one. -/
structure ReadsLike (second first : ElfFile) : Prop where
  /-- The list of exports, or the failure to find it. -/
  exports : second.find exportSection = first.find exportSection
  /-- The symbol table, or the failure to find it. -/
  symbols : second.find symbolSection = first.find symbolSection
  /-- The names of the symbols. -/
  symbolNames : second.symbolNames = first.symbolNames

namespace ReadsLike

variable {first second : ElfFile} (like : second.ReadsLike first)

include like

/-- Files that are the same where they are read have the same symbols. -/
theorem globalSymbols : second.globalSymbols = first.globalSymbols := by
  rw [ElfFile.globalSymbols, ElfFile.globalSymbols, like.symbols, like.symbolNames]

/-- Files that are the same where they are read have the same exports. -/
theorem extract : KernelExports.extract second = KernelExports.extract first := by
  rw [KernelExports.extract, KernelExports.extract, like.exports, like.globalSymbols]

/-- Files that are the same where they are read confirm the same records. -/
theorem confirm (registry : Registry) :
    KernelExports.confirm second registry = KernelExports.confirm first registry := by
  rw [KernelExports.confirm, KernelExports.confirm, like.globalSymbols]

/-- The exports are the same, and so are the confirmed ones, or both cannot be read. -/
theorem readExports {files files' : FileSystem} {path path' : String}
    (opened : openElf files path = .ok (some first))
    (opened' : openElf files' path' = .ok (some second)) :
    KernelExports.readExports files' path' = KernelExports.readExports files path ∧
      readConfirmedExports files' path' = readConfirmedExports files path := by
  constructor
  · rw [KernelExports.readExports, KernelExports.readExports, opened, opened']
    exact like.extract
  · rw [readConfirmedExports, readConfirmedExports, opened, opened']
    simp only [like.extract, like.confirm]

end ReadsLike

end ElfFile

end KernelExports
