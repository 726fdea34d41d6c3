import KernelExports.Proofs.SectionLookup
import KernelExports.Elf.Image

/-!
# Where the writer puts things

Each content stands at the position that the header of its section states, each name at the
position that is stated for it, and the headers fill the table at the end of the file. The section
header table is therefore read back as it was written, and a section that is written under a name
of its own is found under that name.
-/

namespace KernelExports

open StringTable

/-- Records that are written one behind the other have the size of all of them. -/
theorem length_flatMap_toBytes {α : Type} [Layout α] [LawfulLayout α] (written : List α) :
    (written.flatMap Layout.toBytes).length = Layout.size α * written.length := by
  rw [List.length_flatMap, List.map_congr_left
    fun record _ => LawfulLayout.length_toBytes record, List.map_const', List.sum_replicate,
    smul_eq_mul, Nat.mul_comm]

/-- A table that consists of written records is read as these records. -/
theorem records_flatMap {α : Type} [Layout α] [LawfulLayout α] (positive : 0 < Layout.size α)
    (written : List α) :
    records α (written.flatMap Layout.toBytes).toByteArray = written := by
  have placed : ∀ (front : List UInt8) (rest : List α) (index : Nat) (record : α),
      rest[index]? = some record →
        Placed (front ++ rest.flatMap Layout.toBytes).toByteArray
          (front.length + Layout.size α * index) (Layout.toBytes record) := by
    intro front rest
    induction rest generalizing front with
    | nil => simp
    | cons first rest ih =>
      intro index record stands
      rw [List.flatMap_cons]
      cases index with
      | zero =>
        cases stands
        exact Placed.toByteArray_iff.mpr ⟨front, _, rfl, rfl⟩
      | succ index =>
        have behind := ih (front ++ Layout.toBytes first) index record stands
        rw [List.length_append, LawfulLayout.length_toBytes, List.append_assoc] at behind
        rwa [Nat.mul_add, Nat.mul_one, Nat.add_comm (Layout.size α * index), ← Nat.add_assoc]
  have count : (records α (written.flatMap Layout.toBytes).toByteArray).length =
      written.length := by
    rw [records, List.length_map, List.length_range, List.size_toByteArray,
      length_flatMap_toBytes, Nat.mul_div_cancel_left _ positive]
  have same : ∀ index (inside : index < (records α (written.flatMap
      Layout.toBytes).toByteArray).length) (inside' : index < written.length),
      (records α (written.flatMap Layout.toBytes).toByteArray)[index] = written[index] := by
    intro index inside inside'
    have stands := placed [] written index _ (List.getElem?_eq_getElem inside')
    rw [List.length_nil, Nat.zero_add, List.nil_append, ← decode?_eq_some_iff,
      ← getElem?_records positive, List.getElem?_eq_getElem inside] at stands
    exact Option.some.inj stands
  exact List.ext_getElem count same

/-- Three lists that belong together element by element, zipped. -/
theorem forall₂_map_zip {α β γ δ : Type} {P : β → α → Prop} {Q : γ → α → Prop} {R : δ → α → Prop}
    {f : α × β × γ → δ} (each : ∀ a b c, P b a → Q c a → R (f (a, b, c)) a)
    {as : List α} {bs : List β} {cs : List γ} (h : List.Forall₂ P bs as)
    (h' : List.Forall₂ Q cs as) : List.Forall₂ R ((as.zip (bs.zip cs)).map f) as := by
  induction h generalizing cs with
  | nil => exact .nil
  | cons first _ ih =>
    cases h' with
    | cons first' rest' => exact .cons (each _ _ _ first first') (ih rest')

/-- The partner of an element, with the partners of the elements before it. -/
theorem forall₂_split {α β : Type} {R : α → β → Prop} {as : List α} {before after : List β} {b : β}
    (h : List.Forall₂ R as (before ++ b :: after)) :
    ∃ before' a after', as = before' ++ a :: after' ∧ List.Forall₂ R before' before ∧ R a b := by
  have behind := List.forall₂_drop_append as before (b :: after) h
  rw [List.forall₂_cons_right_iff] at behind
  obtain ⟨a, after', related, -, split⟩ := behind
  have whole : as = as.take before.length ++ a :: after' := by
    rw [← split, List.take_append_drop]
  exact ⟨_, a, after', whole, List.forall₂_take_append as before (b :: after) h, related⟩

namespace FileImage

/-- Contents stand where they are said to be. -/
theorem placed_positions (front back : List UInt8) (contents : List (List UInt8)) :
    List.Forall₂
      (fun offset content =>
        Placed (front ++ (body front.length contents ++ back)).toByteArray offset content)
      (positions front.length contents) contents := by
  induction contents generalizing front with
  | nil => exact .nil
  | cons content rest ih =>
    have start : (front ++ padding front.length).length = aligned front.length :=
      List.length_append
    have next : (front ++ padding front.length ++ content).length =
        aligned front.length + content.length := by
      rw [List.length_append, start]
    have behind := ih (front ++ padding front.length ++ content)
    have whole : front ++ (body front.length (content :: rest) ++ back) =
        front ++ padding front.length ++
          (content ++ (body (aligned front.length + content.length) rest ++ back)) := by
      simp only [body, List.append_assoc]
    have this_one : Placed (front ++ (body front.length (content :: rest) ++ back)).toByteArray
        (aligned front.length) content :=
      Placed.toByteArray_iff.mpr ⟨_, _, whole, start⟩
    rw [next, List.append_assoc (front ++ padding front.length), ← whole] at behind
    exact .cons this_one behind

end FileImage

/-- Names that have no NUL bytes are the entries at their positions. -/
theorem hasEntry_namePositions (front : List UInt8) {names : List String}
    (free : ∀ name ∈ names, 0 ∉ Utf8.encode name) :
    List.Forall₂
      (fun position name =>
        HasEntry (front ++ names.flatMap terminated).toByteArray position (Utf8.encode name))
      (namePositions front.length names) names := by
  induction names generalizing front with
  | nil => exact .nil
  | cons name rest ih =>
    obtain ⟨first, others⟩ := List.forall_mem_cons.mp free
    have this_one : HasEntry (front ++ (name :: rest).flatMap terminated).toByteArray
        front.length (Utf8.encode name) :=
      ⟨first, Placed.toByteArray_iff.mpr ⟨front, _, rfl, rfl⟩⟩
    have behind := ih (front ++ terminated name) others
    rw [List.length_append, List.append_assoc] at behind
    exact .cons this_one behind

namespace FileImage

/-- An image whose numbers the format can hold. -/
structure Fits (image : FileImage) : Prop where
  /-- The names of the sections have no NUL bytes. -/
  free : ∀ written ∈ image.sections, 0 ∉ Utf8.encode written.name
  /-- There are fewer section headers than a half word can count. -/
  few : image.headerCount < 65536
  /-- The positions of the section names fit into a word. -/
  names : (tableOfNames image.names).length < 2 ^ 32
  /-- The file can be mapped. -/
  small : image.toBytes.length < 2 ^ 63

/-- The whole file as it is mapped. -/
def file (image : FileImage) : ByteArray :=
  image.toBytes.toByteArray

/-- The string table with the names of the sections. -/
def nameBytes (image : FileImage) : ByteArray :=
  (tableOfNames image.names).toByteArray

/-- The header describes a section that is written: its name and its content stand where the header
says. -/
structure Describes (image : FileImage) (header : SectionHeader) (written : SectionImage) :
    Prop where
  /-- The name stands in the string table. -/
  named : HasEntry image.nameBytes header.name.toNat (Utf8.encode written.name)
  /-- The kind of the section. -/
  type : header.type = written.type
  /-- The size of the content, if there is content in the file. -/
  size : written.type ≠ SectionHeader.noBits → header.size.toNat = written.content.length
  /-- The content stands in the file. -/
  placed : Placed image.file header.offset.toNat written.content

/-- Every content stands at its position in the file. -/
theorem placed_contents (image : FileImage) :
    List.Forall₂ (fun offset written => Placed image.file offset written.content)
      (positions headerSize image.contents) image.allSections := by
  have header : (Layout.toBytes image.fileHeader).length = headerSize :=
    LawfulLayout.length_toBytes _
  have placed := placed_positions (Layout.toBytes image.fileHeader)
    ((image.reservedHeader :: image.sectionHeaders).flatMap Layout.toBytes) image.contents
  rw [header, ← List.append_assoc] at placed
  rwa [contents, List.forall₂_map_right_iff] at placed

/-- Every section name is an entry at its position in the section names. -/
theorem named_sections {image : FileImage} (fits : image.Fits) :
    List.Forall₂
      (fun position (written : SectionImage) =>
        HasEntry image.nameBytes position (Utf8.encode written.name))
      (namePositions 1 image.names) image.allSections := by
  have names : image.names = image.allSections.map SectionImage.name := by
    rw [allSections, List.map_append]
    rfl
  have free : ∀ name ∈ image.names, 0 ∉ Utf8.encode name := by
    intro name listed
    rcases List.mem_append.mp listed with listed | listed
    · obtain ⟨written, member, rfl⟩ := List.mem_map.mp listed
      exact fits.free written member
    · rw [List.mem_singleton.mp listed]
      decide +kernel
  have entries := hasEntry_namePositions [0] free
  rwa [names, List.forall₂_map_right_iff, ← names] at entries

/-- Every header describes its section. -/
theorem sectionHeaders_describe {image : FileImage} (fits : image.Fits) :
    List.Forall₂ image.Describes image.sectionHeaders image.allSections := by
  refine forall₂_map_zip ?_ (named_sections fits) image.placed_contents
  intro written position offset named placed
  have name_bound := named.2.le
  have content_bound := placed.le
  rw [nameBytes, List.size_toByteArray, List.length_append, List.length_singleton] at name_bound
  rw [file, List.size_toByteArray] at content_bound
  have few := fits.names
  have small := fits.small
  have position_fits : (UInt32.ofNat position).toNat = position :=
    UInt32.toNat_ofNat_of_lt' (by change position < 2 ^ 32; omega)
  have offset_fits : (UInt64.ofNat offset).toNat = offset :=
    UInt64.toNat_ofNat_of_lt' (by change offset < 2 ^ 64; omega)
  have size_fits : (UInt64.ofNat written.content.length).toNat = written.content.length :=
    UInt64.toNat_ofNat_of_lt' (by change written.content.length < 2 ^ 64; omega)
  rw [← position_fits] at named
  rw [← offset_fits] at placed
  have size : written.type ≠ SectionHeader.noBits →
      (image.sectionHeader written position offset).size.toNat = written.content.length := by
    intro kept
    dsimp only [sectionHeader]
    rw [if_neg kept, size_fits]
  exact ⟨named, rfl, size, placed⟩

/-- The last header describes the string table with the names of the sections. -/
theorem exists_nameTable_header {image : FileImage} (fits : image.Fits) :
    ∃ header, image.sectionHeaders[image.sections.length]? = some header ∧
      image.Describes header image.nameTable := by
  obtain ⟨before, header, after, split, others, described⟩ :=
    forall₂_split (sectionHeaders_describe fits)
  refine ⟨header, ?_, described⟩
  rw [split, ← others.length_eq, List.getElem?_append_right (Nat.le_refl _), Nat.sub_self,
    List.getElem?_cons_zero]

/-- The section header table as bytes. -/
def headerBytes (image : FileImage) : List UInt8 :=
  (image.reservedHeader :: image.sectionHeaders).flatMap Layout.toBytes

/-- There are as many section headers as the file says. -/
theorem length_headers {image : FileImage} (fits : image.Fits) :
    (image.reservedHeader :: image.sectionHeaders).length = image.headerCount := by
  rw [List.length_cons, (sectionHeaders_describe fits).length_eq, allSections, List.length_append]
  rfl

/-- The section headers take up 64 bytes each. -/
theorem length_headerBytes {image : FileImage} (fits : image.Fits) :
    image.headerBytes.length = image.headerCount * 64 := by
  rw [headerBytes, length_flatMap_toBytes, length_headers fits, Nat.mul_comm]
  rfl

/-- The section header table stands at the end of the file. -/
theorem placed_headerBytes (image : FileImage) :
    Placed image.file image.tablePosition image.headerBytes := by
  have whole : image.toBytes = Layout.toBytes image.fileHeader ++
      body headerSize image.contents ++ (image.headerBytes ++ []) := by
    rw [List.append_nil]
    rfl
  have start : (Layout.toBytes image.fileHeader ++ body headerSize image.contents).length =
      image.tablePosition := by
    rw [List.length_append, LawfulLayout.length_toBytes]
    rfl
  exact Placed.toByteArray_iff.mpr ⟨_, _, whole, start⟩

/-- The position of the section headers is positive and small. -/
theorem tablePosition_lt {image : FileImage} (fits : image.Fits) :
    0 < image.tablePosition ∧ image.tablePosition < 2 ^ 63 := by
  have bound := image.placed_headerBytes.le
  have small := fits.small
  rw [file, List.size_toByteArray] at bound
  have header : image.tablePosition = 64 + (body headerSize image.contents).length := rfl
  omega

/-- A file that begins with the header of a file to be written has this header. -/
theorem readHeader_of_placed {data : ByteArray} {header : FileHeader}
    (placed : Placed data 0 (Layout.toBytes header)) (known : header.ident = ident) :
    ElfFile.readHeader data = .ok header := by
  have size := placed.le
  rw [LawfulLayout.length_toBytes] at size
  change 64 ≤ data.size at size
  have start : ∃ back, data.data.toList = ident.toList ++ back := by
    obtain ⟨front, back, whole, short⟩ := placed
    rw [List.length_eq_zero_iff.mp short, List.nil_append] at whole
    rw [whole, ← known]
    simp only [Layout.toBytes, FileHeader.toBytes, List.append_assoc]
    exact ⟨_, rfl⟩
  obtain ⟨back, whole⟩ := start
  have byte : ∀ index value (inside : index < data.size), ident.toList[index]? = some value →
      data[index] = value := by
    intro index value inside stands
    obtain ⟨lower, -⟩ := List.getElem?_eq_some_iff.mp stands
    have same : data.data.toList[index]? = some value := by
      rw [whole, List.getElem?_append_left lower, stands]
    obtain ⟨_, found⟩ := List.getElem?_eq_some_iff.mp same
    rwa [Array.getElem_toList] at found
  have first : (data.extract 0 4).data.toList = ElfFile.magic := by
    rw [toList_data_extract_append data 0 4, whole]
    rfl
  rw [ElfFile.readHeader, dif_neg (by omega), if_neg (not_not_intro first)]
  rw [byte 4 2 (by omega) rfl, byte 6 1 (by omega) rfl, byte 5 1 (by omega) rfl,
    if_neg (by decide), if_neg (by decide), if_neg (by decide),
    decode?_eq_some_iff.mpr placed]

/-- The header of the file is read back. -/
theorem readHeader_file (image : FileImage) :
    ElfFile.readHeader image.file = .ok image.fileHeader := by
  have whole : image.toBytes = [] ++ (Layout.toBytes image.fileHeader ++
      (body headerSize image.contents ++ image.headerBytes)) := by
    rw [List.nil_append, ← List.append_assoc]
    rfl
  exact readHeader_of_placed (Placed.toByteArray_iff.mpr ⟨[], _, whole, rfl⟩) rfl

/-- The file header says where the section headers begin. -/
theorem sectionHeaderOffset_file {image : FileImage} (fits : image.Fits) :
    image.fileHeader.sectionHeaderOffset.toNat = image.tablePosition := by
  have bound := (tablePosition_lt fits).2
  exact UInt64.toNat_ofNat_of_lt' (by change image.tablePosition < 2 ^ 64; omega)

/-- The number of section headers is read back, from the place where the numbering puts it. -/
theorem count_file {image : FileImage} (fits : image.Fits) :
    SectionTable.count image.file image.fileHeader = .ok image.headerCount := by
  have few := fits.few
  have positive : 0 < image.headerCount := Nat.succ_pos _
  have position := sectionHeaderOffset_file fits
  have placed := image.placed_headerBytes
  rw [headerBytes, List.flatMap_cons, Placed.append_iff, ← decode?_eq_some_iff] at placed
  rw [SectionTable.count, position, placed.1]
  cases numbering : image.extended with
  | false =>
    have stated : image.fileHeader.sectionHeaderCount.toNat = image.headerCount := by
      simp only [fileHeader, numbering, Bool.false_eq_true, if_false]
      exact UInt16.toNat_ofNat_of_lt' few
    rw [if_neg, stated]
    intro zero
    rw [zero] at stated
    exact absurd stated (Nat.ne_of_lt positive)
  | true =>
    rw [if_pos (by simp only [fileHeader, numbering, if_true])]
    simp only [reservedHeader, numbering, if_true]
    rw [UInt64.toNat_ofNat_of_lt' (by change image.headerCount < 2 ^ 64; omega)]

/-- So is the index of the section names, which is the last one. -/
theorem nameIndex_file {image : FileImage} (fits : image.Fits) :
    SectionTable.nameIndex image.fileHeader image.reservedHeader = image.sections.length + 1 := by
  have few := fits.few
  rw [headerCount] at few
  have last : image.headerCount - 1 = image.sections.length + 1 := rfl
  rw [SectionTable.nameIndex]
  cases numbering : image.extended with
  | false =>
    have stated : image.fileHeader.sectionNameIndex.toNat = image.sections.length + 1 := by
      simp only [fileHeader, numbering, Bool.false_eq_true, if_false, last]
      exact UInt16.toNat_ofNat_of_lt' (by change _ < 65536; omega)
    rw [if_neg, stated]
    intro escape
    rw [escape] at stated
    change 65535 = _ at stated
    omega
  | true =>
    rw [if_pos (by simp only [fileHeader, numbering, if_true])]
    simp only [reservedHeader, numbering, if_true, last]
    exact UInt32.toNat_ofNat_of_lt' (by change _ < 2 ^ 32; omega)

/-- Reading the section headers of a written file gives the written ones. -/
theorem readHeaders_file {image : FileImage} (fits : image.Fits) :
    SectionTable.readHeaders image.file image.fileHeader =
      .ok (image.reservedHeader :: image.sectionHeaders) := by
  have few := fits.few
  have position := sectionHeaderOffset_file fits
  have somewhere : image.fileHeader.sectionHeaderOffset ≠ 0 := by
    intro nowhere
    rw [nowhere] at position
    exact absurd position (Nat.ne_of_lt (tablePosition_lt fits).1)
  have entries : image.fileHeader.sectionHeaderSize = 64 := rfl
  have table := image.placed_headerBytes.slice?_eq
  rw [length_headerBytes fits] at table
  have no_overflow : ¬ addressCount ≤ image.headerCount * 64 := by
    rw [addressCount]
    omega
  rw [SectionTable.readHeaders, if_neg somewhere, if_neg (not_not_intro entries),
    count_file fits, position]
  dsimp only
  rw [if_neg no_overflow, table]
  dsimp only
  rw [headerBytes, records_flatMap (by decide)]

/-- The section table is read back. -/
theorem readTable_file {image : FileImage} (fits : image.Fits) :
    SectionTable.read image.file image.fileHeader =
      .ok ⟨image.reservedHeader :: image.sectionHeaders, image.nameBytes⟩ := by
  obtain ⟨header, last, described⟩ := exists_nameTable_header fits
  have size : header.size.toNat = (tableOfNames image.names).length :=
    described.size (by change (3 : UInt32) ≠ 8; decide)
  have placed : Placed image.file header.offset.toNat (tableOfNames image.names) :=
    described.placed
  have bound := placed.le
  have small := fits.small
  rw [file, List.size_toByteArray] at bound
  have no_overflow : ¬ addressCount ≤ header.offset.toNat + header.size.toNat := by
    rw [addressCount]
    omega
  have names : SectionTable.readNames image.file header = .ok image.nameBytes := by
    rw [SectionTable.readNames, if_neg no_overflow, size, placed.slice?_eq]
    rfl
  rw [SectionTable.read, readHeaders_file fits]
  dsimp only [SectionTable.ofHeaders]
  rw [nameIndex_file fits]
  dsimp only
  rw [last]
  dsimp only
  rw [names]

/-- The tables of a written file are those that were written. -/
theorem readTables_file {image : FileImage} (fits : image.Fits) :
    ElfFile.readTables image.file = .ok (image.fileHeader,
      ⟨image.reservedHeader :: image.sectionHeaders, image.nameBytes⟩) := by
  rw [ElfFile.readTables, readHeader_file]
  dsimp only
  rw [readTable_file fits]

/-- A section with content that is written under a name of its own is found under this name. -/
theorem holds_file {image : FileImage} (fits : image.Fits) {written : SectionImage}
    (member : written ∈ image.allSections)
    (own : ∀ other ∈ image.allSections, other.name = written.name → other = written)
    (kept : written.type ≠ SectionHeader.noBits) (nonempty : written.content ≠ []) :
    ∃ header, SectionTable.Holds ⟨image.reservedHeader :: image.sectionHeaders, image.nameBytes⟩
      image.file written.name header written.content.toByteArray := by
  obtain ⟨before, after, split, first⟩ := List.eq_append_cons_of_mem member
  have describe := sectionHeaders_describe fits
  rw [split] at describe
  obtain ⟨before', header, after', split', described, facts⟩ := forall₂_split describe
  have others : ∀ other ∈ before',
      SectionTable.HasOtherName image.nameBytes (Utf8.encode written.name) other := by
    intro other earlier
    obtain ⟨index, inside, rfl⟩ := List.mem_iff_getElem.mp earlier
    have inside' := inside
    rw [described.length_eq] at inside'
    refine ⟨_, (described.get inside inside').named, fun same => first ?_⟩
    have listed : before[index] ∈ image.allSections :=
      split ▸ List.mem_append_left _ (List.getElem_mem inside')
    exact own _ listed (Utf8.encode_inj.mp same) ▸ List.getElem_mem inside'
  have located : SectionTable.locate
      ⟨image.reservedHeader :: image.sectionHeaders, image.nameBytes⟩ written.name =
        .ok (some header) :=
    SectionTable.firstNamed_eq_some_iff.mpr ⟨before', after', split', others, facts.named⟩
  have placed : Placed image.file header.offset.toNat
      written.content.toByteArray.data.toList := by
    rw [List.toList_data_toByteArray]
    exact facts.placed
  have size : written.content.toByteArray.size = header.size.toNat := by
    rw [List.size_toByteArray, facts.size kept]
  have not_empty : written.content.toByteArray.size ≠ 0 := by
    rw [List.size_toByteArray]
    exact mt List.length_eq_zero_iff.mp nonempty
  exact ⟨header, SectionTable.locate_eq_some_iff.mp located, facts.type ▸ kept, not_empty, size,
    placed⟩

end FileImage

end KernelExports
