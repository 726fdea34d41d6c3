import KernelExports.Proofs.ImageReading
import KernelExports.Proofs.SharedBytes

/-!
# Bytes that are not read

Extraction from a file reads the file header, the section header table, the string table with the
names of the sections, and the content of the sections with three names. Two files that share these
bytes give the same result. It does not matter whether the sections overlap, what their symbols are
like, and where their names point: no reader leaves the range that it is meant for.
-/

namespace KernelExports

open StringTable

/-- A section table that could be read is read again where its bytes are shared. -/
theorem SectionTable.read_congr {first second : ByteArray} (length : second.size = first.size)
    {header : FileHeader} {table : SectionTable} (read : read first header = .ok table)
    (reserved : header.sectionHeaderOffset ≠ 0 →
      SameIn first second header.sectionHeaderOffset.toNat 64)
    (headers : header.sectionHeaderOffset ≠ 0 →
      SameIn first second header.sectionHeaderOffset.toNat (table.headers.length * 64))
    (names : ∀ reserved entry, table.headers[0]? = some reserved →
      table.headers[nameIndex header reserved]? = some entry →
        SameIn first second entry.offset.toNat entry.size.toNat) :
    SectionTable.read second header = .ok table := by
  rw [SectionTable.read] at read ⊢
  split at read
  · cases read
  · next listed found =>
    obtain rfl := headers_of_ofHeaders read
    rw [readHeaders_congr length found reserved headers]
    cases split : table.headers with
    | nil =>
      rw [split] at read
      exact read
    | cons leading others =>
      rw [split] at read names
      have entries : ∀ before entry, nameIndex header leading = before + 1 →
          others[before]? = some entry → readNames second entry = readNames first entry := by
        intro before entry place stands
        refine readNames_congr length (names leading entry rfl ?_)
        rw [place, List.getElem?_cons_succ, stands]
      dsimp only
      rw [ofHeaders_congr rfl entries, read, Except.map, ← split]

/-- The other byte sequence shares with the open file whatever extraction reads from it. -/
structure ElfFile.SharesRead (file : ElfFile) (other : ByteArray) : Prop where
  /-- The sizes are the same. -/
  size : other.size = file.bytes.size
  /-- So is the file header. -/
  header : SameIn file.bytes other 0 64
  /-- So is the first section header, if there can be one. -/
  reserved : file.header.sectionHeaderOffset ≠ 0 →
    SameIn file.bytes other file.header.sectionHeaderOffset.toNat 64
  /-- So is the section header table. -/
  table : file.header.sectionHeaderOffset ≠ 0 →
    SameIn file.bytes other file.header.sectionHeaderOffset.toNat (file.sectionCount * 64)
  /-- So is the string table that holds the names of the sections. -/
  names : ∀ reserved entry, file.sections.headers[0]? = some reserved →
    file.sections.headers[SectionTable.nameIndex file.header reserved]? = some entry →
      SameIn file.bytes other entry.offset.toNat entry.size.toNat
  /-- So is the content of every section with one of three names that has content in the file. -/
  contents : ∀ index entry name, 1 ≤ index → file.sections.headers[index]? = some entry →
    entry.type ≠ SectionHeader.noBits →
    HasEntry file.sections.names entry.name.toNat (Utf8.encode name) →
    name = symbolNameSection ∨ name = symbolSection ∨ name = exportSection →
      SameIn file.bytes other entry.offset.toNat entry.size.toNat

namespace ElfFile.SharesRead

variable {file : ElfFile} {other : ByteArray} (shares : file.SharesRead other)

include shares

/-- Header and section table of the other file are the same. -/
theorem readTables (tables : ElfFile.readTables file.bytes = .ok (file.header, file.sections)) :
    ElfFile.readTables other = .ok (file.header, file.sections) := by
  obtain ⟨read, found⟩ := readTables_eq_ok_iff.mp tables
  have isHeader := decode?_of_readHeader read
  have isHeader' : decode? FileHeader other 0 = some file.header := by
    rw [decode?_congr shares.size shares.header, isHeader]
  have start := shares.header.mono (Nat.le_refl 0) (by decide : 0 + 16 ≤ 0 + 64)
  have found' :=
    SectionTable.read_congr shares.size found shares.reserved shares.table shares.names
  rcases readHeader_congr shares.size start isHeader isHeader' with ⟨error, failed, -⟩ | same
  · rw [read] at failed
    cases failed
  · exact readTables_eq_ok_iff.mpr ⟨same.2, found'⟩

/-- Lookups of the sections that are read have the same result in the other file. -/
theorem findIn {name : String}
    (read : name = symbolNameSection ∨ name = symbolSection ∨ name = exportSection) :
    ElfFile.findIn other file.sections name = file.find name := by
  refine findIn_congr shares.size rfl rfl ?_
  intro entry listed named kept
  obtain ⟨index, stands⟩ := List.mem_iff_getElem?.mp listed
  rw [List.getElem?_tail] at stands
  exact shares.contents (index + 1) entry name (Nat.succ_pos index) stands kept named read

/-- The other byte sequence can be opened, and extraction reads the same from it. -/
theorem exists_readsLike {path : String} (opened : ofBytes path file.bytes = .ok file)
    (path' : String) :
    ∃ second, ofBytes path' other = .ok second ∧ second.ReadsLike file := by
  obtain ⟨-, -, tables, names, found, kept⟩ := ofBytes_eq_ok_iff.mp opened
  have found' : ElfFile.findIn other file.sections symbolNameSection = .ok names :=
    (shares.findIn (.inl rfl)).trans found
  have opened' : ofBytes path' other =
      .ok ⟨path', other, file.header, file.sections, file.symbolNames⟩ :=
    ofBytes_eq_ok_iff.mpr ⟨rfl, rfl, shares.readTables tables, names, found', kept⟩
  exact ⟨_, opened', shares.findIn (.inr (.inr rfl)), shares.findIn (.inr (.inl rfl)), rfl⟩

end ElfFile.SharesRead

/-- A byte sequence that shares with a file that can be opened the bytes that extraction reads can
be opened as well, and plain and confirming extraction give the same for both: a registry, nothing,
or an error. -/
theorem unread_bytes_ignored {path : String} {bytes other : ByteArray} {file : ElfFile}
    (opened : ElfFile.ofBytes path bytes = .ok file) (shares : file.SharesRead other)
    (path' : String) :
    (∃ second, ElfFile.ofBytes path' other = .ok second) ∧
      ∀ files files', files path = .ok bytes → files' path' = .ok other →
        readExports files' path' = readExports files path ∧
          readConfirmedExports files' path' = readConfirmedExports files path := by
  obtain ⟨-, rfl, -⟩ := ElfFile.ofBytes_eq_ok_iff.mp opened
  obtain ⟨second, opened', like⟩ := shares.exists_readsLike opened path'
  refine ⟨⟨second, opened'⟩, fun files files' content content' => ?_⟩
  have found := openElf_eq_some_iff.mpr ⟨file.bytes, content, opened⟩
  have found' := openElf_eq_some_iff.mpr ⟨other, content', opened'⟩
  exact like.readExports found found'

/-- A written file shares with a byte sequence whatever is read from it if they have the same size
and the same bytes in the file header, in the section header table, and in the sections with four
names. -/
theorem FileImage.sharesRead {image : FileImage} (fits : image.Fits) (symbols : List SymbolImage)
    (path : String) {other : ByteArray} (size : other.size = image.file.size)
    (header : SameIn image.file other 0 64)
    (table : SameIn image.file other image.tablePosition (image.headerCount * 64))
    (contents : ∀ entry ∈ image.sectionHeaders, ∀ name,
      HasEntry image.nameBytes entry.name.toNat (Utf8.encode name) →
      name = nameSection ∨ name = symbolNameSection ∨ name = symbolSection ∨ name = exportSection →
        SameIn image.file other entry.offset.toNat entry.size.toNat) :
    (image.opened symbols path).SharesRead other := by
  have position := sectionHeaderOffset_file fits
  have count := length_headers fits
  have one : 64 ≤ image.headerCount * 64 := by
    rw [← count, List.length_cons]
    omega
  have names : ∀ entry, image.sectionHeaders[image.sections.length]? = some entry →
      SameIn image.file other entry.offset.toNat entry.size.toNat := by
    intro entry stands
    obtain ⟨last, stands', described⟩ := exists_nameTable_header fits
    obtain rfl := Option.some.inj (stands.symm.trans stands')
    exact contents entry (List.mem_of_getElem? stands) nameSection described.named (.inl rfl)
  constructor
  · dsimp only [opened]
    exact size
  · dsimp only [opened]
    exact header
  · intro _
    dsimp only [opened]
    rw [position]
    exact table.mono (Nat.le_refl _) (Nat.add_le_add_left one _)
  · intro _
    dsimp only [opened, ElfFile.sectionCount]
    rw [position, count]
    exact table
  · intro reserved entry leading stands
    cases leading
    dsimp only [opened] at stands ⊢
    rw [nameIndex_file fits] at stands
    exact names entry stands
  · intro index entry name positive stands _ named read
    dsimp only [opened] at stands named ⊢
    obtain ⟨before, rfl⟩ := Nat.exists_eq_add_of_le' positive
    exact contents entry (List.mem_of_getElem? stands) name named (.inr read)

/-- A module with some code that exports one symbol. -/
def moduleWithCode (code : List UInt8) : FileImage where
  sections := .plain ".text" 1 code :: .ofExports ["alpha"] ::
    SymbolImage.sections [⟨"alpha", 1, 16⟩]
  extended := false

/-- Two modules with different code share what extraction reads, and both export the symbol. -/
theorem moduleWithCode_same_exports :
    moduleWithCode [0x90, 0x90, 0x90] ≠ moduleWithCode [0xcc, 0xcc, 0xc3] ∧
    ((moduleWithCode [0x90, 0x90, 0x90]).opened [⟨"alpha", 1, 16⟩] "nop.ko").SharesRead
      (moduleWithCode [0xcc, 0xcc, 0xc3]).file ∧
    ∃ plain,
      readExports (fun _ => .ok (moduleWithCode [0xcc, 0xcc, 0xc3]).file) "trap.ko" =
        .ok (some plain) ∧
      plain.get? "alpha" = some ⟨"alpha", 0, false, none⟩ := by
  have contains : (moduleWithCode [0x90, 0x90, 0x90]).Contains ["alpha"] [⟨"alpha", 1, 16⟩]
      [.plain ".text" 1 [0x90, 0x90, 0x90]] :=
    { sections := by decide +kernel
      nonempty := by decide
      named := by decide
      exports_free := by decide +kernel
      symbols_free := by decide +kernel
      others_free := by decide +kernel
      bindings := by decide
      others_named := by decide
      few := by decide +kernel
      section_names := by decide +kernel
      symbol_names := by decide +kernel
      small := by decide +kernel }
  have size : (moduleWithCode [0xcc, 0xcc, 0xc3]).file.size =
      (moduleWithCode [0x90, 0x90, 0x90]).file.size := by
    rw [FileImage.file, FileImage.file, List.size_toByteArray, List.size_toByteArray]
    decide +kernel
  have shared : ∀ {offset size : Nat},
      ((moduleWithCode [0x90, 0x90, 0x90]).toBytes.drop offset).take size =
        ((moduleWithCode [0xcc, 0xcc, 0xc3]).toBytes.drop offset).take size →
      SameIn (moduleWithCode [0x90, 0x90, 0x90]).file (moduleWithCode [0xcc, 0xcc, 0xc3]).file
        offset size := by
    intro offset size same
    rw [sameIn_iff_take_drop, FileImage.file, FileImage.file, List.toList_data_toByteArray,
      List.toList_data_toByteArray]
    exact same
  have contents : ∀ entry ∈ (moduleWithCode [0x90, 0x90, 0x90]).sectionHeaders,
      SectionTable.nameOf (moduleWithCode [0x90, 0x90, 0x90]).nameBytes entry =
          .ok (Utf8.encode ".text") ∨
        ((moduleWithCode [0x90, 0x90, 0x90]).toBytes.drop entry.offset.toNat).take
            entry.size.toNat =
          ((moduleWithCode [0xcc, 0xcc, 0xc3]).toBytes.drop entry.offset.toNat).take
            entry.size.toNat := by
    decide +kernel
  have shares : ((moduleWithCode [0x90, 0x90, 0x90]).opened [⟨"alpha", 1, 16⟩] "nop.ko").SharesRead
      (moduleWithCode [0xcc, 0xcc, 0xc3]).file := by
    refine FileImage.sharesRead contains.fits _ _ size (shared ?_) (shared ?_) ?_
    · decide +kernel
    · decide +kernel
    · intro entry listed name named read
      rcases contents entry listed with code | same
      · have unread : Utf8.encode ".text" = Utf8.encode name :=
          (SectionTable.nameOf_eq_ok_iff.mp code).unique named
        rw [← Utf8.encode_inj.mp unread] at read
        exact absurd read (by decide)
      · exact shared same
  obtain ⟨plain, -, read, holds⟩ := contains.exists_readExports
    (fun _ => .ok (moduleWithCode [0x90, 0x90, 0x90]).file) "nop.ko" rfl
  obtain ⟨-, same⟩ := unread_bytes_ignored (contains.ofBytes_file "nop.ko") shares "trap.ko"
  obtain ⟨same_plain, -⟩ := same (fun _ => .ok (moduleWithCode [0x90, 0x90, 0x90]).file)
    (fun _ => .ok (moduleWithCode [0xcc, 0xcc, 0xc3]).file) rfl rfl
  exact ⟨by decide, shares, plain, same_plain.trans read, (holds.record_iff _ _).mpr (by simp)⟩

end KernelExports
