import KernelExports.Proofs.MachineAccess

/-!
# Reading records where they stand

File headers, section headers and symbol records are read at an offset exactly if their bytes stand
there, and the bytes of a record are those of its fields, one field after the other, with the lowest
byte of each field first. The tables below list the fields with their widths, in the order of the
format.

An offset is a word of 64 bits. Where the end of a record would not be one, nothing is read, because
there is no room for the record in any file.
-/

namespace KernelExports

open LittleEndian

namespace LittleEndian

/-- The digits of a number in base 256, lowest first. -/
def digits (width number : Nat) : List UInt8 :=
  (List.range width).map fun place => UInt8.ofNat (number / 256 ^ place)

/-- A word is written digit by digit. -/
theorem bytes_eq_digits (width number : Nat) : bytes width number = digits width number := by
  induction width generalizing number with
  | zero => rfl
  | succ width ih =>
    have others (place : Nat) : number / 256 / 256 ^ place = number / 256 ^ (place + 1) := by
      rw [Nat.div_div_eq_div_mul, Nat.pow_succ']
    rw [bytes, ih, digits, digits, List.range_succ_eq_map, List.map_cons, List.map_map]
    simp only [others, Nat.pow_zero, Nat.div_one, Function.comp_def]

end LittleEndian

/-- The widths and the numbers of the fields of a file header. -/
def FileHeader.fields (header : FileHeader) : List (Nat × Nat) :=
  header.ident.toList.map (fun byte => (1, byte.toNat)) ++
    [(2, header.type.toNat), (2, header.machine.toNat), (4, header.version.toNat),
      (8, header.entry.toNat), (8, header.programHeaderOffset.toNat),
      (8, header.sectionHeaderOffset.toNat), (4, header.flags.toNat), (2, header.headerSize.toNat),
      (2, header.programHeaderSize.toNat), (2, header.programHeaderCount.toNat),
      (2, header.sectionHeaderSize.toNat), (2, header.sectionHeaderCount.toNat),
      (2, header.sectionNameIndex.toNat)]

/-- The widths and the numbers of the fields of a section header. -/
def SectionHeader.fields (header : SectionHeader) : List (Nat × Nat) :=
  [(4, header.name.toNat), (4, header.type.toNat), (8, header.flags.toNat),
    (8, header.address.toNat), (8, header.offset.toNat), (8, header.size.toNat),
    (4, header.link.toNat), (4, header.info.toNat), (8, header.alignment.toNat),
    (8, header.entrySize.toNat)]

/-- The widths and the numbers of the fields of a symbol record. -/
def SymbolRecord.fields (record : SymbolRecord) : List (Nat × Nat) :=
  [(4, record.name.toNat), (1, record.info.toNat), (1, record.other.toNat),
    (2, record.sectionIndex.toNat), (8, record.value.toNat), (8, record.size.toNat)]

/-- The bytes of fields, one after the other. -/
def spell (fields : List (Nat × Nat)) : List UInt8 :=
  fields.flatMap fun (width, number) => digits width number

/-- Fields are spelled one behind the other. -/
theorem spell_append (first second : List (Nat × Nat)) :
    spell (first ++ second) = spell first ++ spell second :=
  List.flatMap_append

/-- Fields of one byte are spelled by these bytes. -/
theorem spell_bytes (list : List UInt8) :
    spell (list.map fun byte => (1, byte.toNat)) = list := by
  induction list with
  | nil => rfl
  | cons byte rest ih =>
    have first : digits 1 byte.toNat = [byte] := by simp [digits]
    rw [List.map_cons, spell, List.flatMap_cons]
    dsimp only
    rw [first]
    exact congrArg _ ih

/-- A file header is written as its fields are spelled. -/
theorem FileHeader.toBytes_eq_spell (header : FileHeader) :
    Layout.toBytes header = spell header.fields := by
  rw [FileHeader.fields, spell_append, spell_bytes]
  simp [Layout.toBytes, toBytes, bytes_eq_digits, spell]

/-- A section header is written as its fields are spelled. -/
theorem SectionHeader.toBytes_eq_spell (header : SectionHeader) :
    Layout.toBytes header = spell header.fields := by
  simp [Layout.toBytes, toBytes, fields, bytes_eq_digits, spell]

/-- A symbol is written as its fields are spelled. -/
theorem SymbolRecord.toBytes_eq_spell (record : SymbolRecord) :
    Layout.toBytes record = spell record.fields := by
  simp [Layout.toBytes, toBytes, fields, bytes_eq_digits, spell]

/-- The records of a type, each with the given fields, are read exactly where they stand. -/
structure ReadsExactly (α : Type) [Layout α] (size : Nat) (fields : α → List (Nat × Nat)) :
    Prop where
  /-- A record is spelled by its fields, -/
  spelled : ∀ record : α, (encode record).data.toList = spell (fields record)
  /-- in so many bytes. -/
  size_encode : ∀ record : α, (encode record).size = size
  /-- It is read where it was written, whatever stands in front of it and behind it. -/
  written : ∀ (front back : ByteArray) (record : α), front.size + back.size < 2 ^ 62 →
    Machine.record? α (front ++ encode record ++ back) (Machine.length front) = some record
  /-- What is read at an offset is what stands there. -/
  stands : ∀ (data : ByteArray) (offset : UInt64) (record : α), data.size < 2 ^ 63 →
    (Machine.record? α data offset = some record ↔
      offset.toNat + size ≤ data.size ∧
        data.extract offset.toNat (offset.toNat + size) = encode record)
  /-- Nothing is read exactly if there is no room for a record, however large the offset is. -/
  missing : ∀ (data : ByteArray) (offset : UInt64), data.size < 2 ^ 63 →
    (Machine.record? α data offset = none ↔ data.size < offset.toNat + size)
  /-- An offset is as good as its number. -/
  number : ∀ (data : ByteArray) (offset : UInt64), data.size < 2 ^ 63 →
    Machine.record? α data offset = decode? α data offset.toNat

section Layouts

variable {α : Type} [Layout α]

/-- A record stands behind what was written before it. -/
theorem placed_encode (front back : ByteArray) (record : α) :
    Placed (front ++ encode record ++ back) front.size (Layout.toBytes record) := by
  have bytes : (front ++ encode record ++ back).data.toList =
      front.data.toList ++ (Layout.toBytes record ++ back.data.toList) := by simp [encode]
  exact ⟨_, _, bytes, length_toList_data front⟩

variable [LawfulLayout α]

/-- A written record has the size of its kind. -/
theorem size_encode (record : α) : (encode record).size = Layout.size α := by
  rw [encode, List.size_toByteArray, LawfulLayout.length_toBytes]

/-- What stands at an offset is the part of the file from there on. -/
theorem placed_toBytes_iff {data : ByteArray} {offset : Nat} {record : α} :
    Placed data offset (Layout.toBytes record) ↔
      offset + Layout.size α ≤ data.size ∧
        data.extract offset (offset + Layout.size α) = encode record := by
  rw [Placed.iff_take_drop, LawfulLayout.length_toBytes, ← toList_data_inj,
    toList_data_extract_append, encode, List.toList_data_toByteArray]

/-- The laws of a layout, and a table of its fields, are all that exact reading needs. -/
theorem readsExactly (fits : Layout.size α ≤ 2 ^ 62) {fields : α → List (Nat × Nat)}
    (spelled : ∀ record : α, Layout.toBytes record = spell (fields record)) :
    ReadsExactly α (Layout.size α) fields where
  spelled record := by rw [encode, List.toList_data_toByteArray, spelled]
  size_encode := size_encode
  written front back record short := by
    have small : (front ++ encode record ++ back).size < 2 ^ 63 := by
      rw [ByteArray.size_append, ByteArray.size_append, size_encode]
      omega
    rw [Machine.record?_eq (by omega) small, Machine.toNat_length (by omega),
      decode?_eq_some_iff]
    exact placed_encode front back record
  stands data offset record small := by
    rw [Machine.record?_eq (by omega) small, decode?_eq_some_iff, placed_toBytes_iff]
  missing data offset small := by
    rw [Machine.record?_eq (by omega) small, decode?_eq_none_iff]
  number data offset small := Machine.record?_eq (by omega) small offset

end Layouts

/-- File headers, section headers and symbol records are spelled by their fields, in 64, 64 and 24
bytes. Each of them is read where it was written, what is read at an offset stands there, and
nothing is read exactly where there is no room. -/
theorem records_read_exactly :
    ReadsExactly FileHeader 64 FileHeader.fields ∧
    ReadsExactly SectionHeader 64 SectionHeader.fields ∧
    ReadsExactly SymbolRecord 24 SymbolRecord.fields := by
  refine ⟨readsExactly ?_ FileHeader.toBytes_eq_spell,
    readsExactly ?_ SectionHeader.toBytes_eq_spell,
    readsExactly ?_ SymbolRecord.toBytes_eq_spell⟩ <;> decide

/-- A record between other bytes, whose fields have no byte in common. -/
def enclosedRecord : SymbolRecord :=
  ⟨0x04030201, 0x05, 0x06, 0x0807, 0x100f0e0d0c0b0a09, 0x1817161514131211⟩

/-- The bytes of the record count up. It is read behind the first two bytes, and nothing is read at
the last offset of all, whose sum with the size of a record is not a word. -/
theorem enclosedRecord_read :
    (encode enclosedRecord).data.toList = (List.range' 1 24).map UInt8.ofNat ∧
    (ByteArray.mk #[0xaa, 0xbb]).size + (ByteArray.mk #[0xcc]).size < 2 ^ 62 ∧
    Machine.record? SymbolRecord (⟨#[0xaa, 0xbb]⟩ ++ encode enclosedRecord ++ ⟨#[0xcc]⟩) 2 =
      some enclosedRecord ∧
    Machine.record? SymbolRecord (encode enclosedRecord) 0xffffffffffffffff = none := by
  obtain ⟨-, -, exact_symbols⟩ := records_read_exactly
  have short : (ByteArray.mk #[0xaa, 0xbb]).size + (ByteArray.mk #[0xcc]).size < 2 ^ 62 := by decide
  have size := exact_symbols.size_encode enclosedRecord
  refine ⟨?_, short, exact_symbols.written _ _ enclosedRecord short,
    (exact_symbols.missing _ _ ?_).mpr ?_⟩
  · rw [exact_symbols.spelled]
    decide
  · rw [size]
    decide
  · rw [size]
    decide

end KernelExports
