import KernelExports.Error
import KernelExports.Elf.FileHeader
import KernelExports.Elf.SectionHeader
import KernelExports.Elf.SymbolRecord

/-!
# Writing ELF files

The layout of a relocatable file: the file header, the contents of the sections one after the other
at positions that are multiples of eight, the string table with the names of the sections as the
last of them, and the section header table. The number of headers and the index of that string
table stand either in the file header or, with extended numbering, in the first section header.

This is what the reading side is measured against, so it lays files out plainly: names are not
shared, and every section is aligned to one byte in memory.
-/

namespace KernelExports

/-- A section to be written. -/
structure SectionImage where
  /-- The name. -/
  name : String
  /-- The kind of the content. -/
  type : UInt32
  /-- The content. -/
  content : List UInt8
  /-- The size that the header states if the kind is `SectionHeader.noBits`. -/
  memorySize : UInt64
  /-- The name of a related section. -/
  link : Option String
  /-- A number whose meaning depends on the kind. -/
  info : UInt32
  /-- The size of an entry, if the content is a table. -/
  entrySize : UInt64
  deriving DecidableEq, Repr

/-- A symbol to be written. -/
structure SymbolImage where
  /-- The name, empty for a symbol without one. -/
  name : String
  /-- The number that stands for the binding, at most 15. -/
  binding : UInt8
  /-- The value. -/
  value : UInt64
  deriving DecidableEq, Repr

/-- A file to be written. -/
structure FileImage where
  /-- The sections, except for the reserved one and the string table with their names. -/
  sections : List SectionImage
  /-- Whether the numbers of the section header table stand in its first header. -/
  extended : Bool
  deriving DecidableEq, Repr

/-- The bytes of a name in a string table, with the NUL byte that ends it. -/
def terminated (name : String) : List UInt8 :=
  Utf8.encode name ++ [0]

/-- The string table that holds names one after the other behind an empty one. -/
def tableOfNames (names : List String) : List UInt8 :=
  0 :: names.flatMap terminated

/-- The positions of names that follow each other from a position on. -/
def namePositions : (position : Nat) → List String → List Nat
  | _, [] => []
  | position, name :: rest =>
    position :: namePositions (position + (terminated name).length) rest

namespace SectionImage

/-- A section that any bytes fill. -/
def plain (name : String) (type : UInt32) (content : List UInt8) : SectionImage :=
  ⟨name, type, content, 0, none, 0, 0⟩

/-- The section that lists exported names. -/
def ofExports (names : List String) : SectionImage :=
  plain exportSection 1 (names.flatMap terminated)

end SectionImage

namespace SymbolImage

/-- The part of the string table that holds the name. A symbol without a name needs none. -/
def nameBytes (symbol : SymbolImage) : List UInt8 :=
  if symbol.name = "" then [] else terminated symbol.name

/-- The record of a symbol whose name stands at a position of the string table. -/
def record (symbol : SymbolImage) (position : Nat) : SymbolRecord where
  name := if symbol.name = "" then 0 else UInt32.ofNat position
  info := symbol.binding <<< 4 ||| 2
  other := 0
  sectionIndex := 1
  value := symbol.value
  size := 0

/-- The records of symbols whose names stand one after the other from a position on. -/
def recordsFrom : (position : Nat) → List SymbolImage → List SymbolRecord
  | _, [] => []
  | position, symbol :: rest =>
    symbol.record position :: recordsFrom (position + symbol.nameBytes.length) rest

/-- The symbol table: a reserved record of zeros, and the records of the symbols. -/
def table (symbols : List SymbolImage) : List UInt8 :=
  List.replicate 24 0 ++ (recordsFrom 1 symbols).flatMap Layout.toBytes

/-- The string table that holds the names of symbols. -/
def names (symbols : List SymbolImage) : List UInt8 :=
  0 :: symbols.flatMap nameBytes

/-- The index of the first symbol that is not local, where the local ones come first. -/
def firstGlobal (symbols : List SymbolImage) : Nat :=
  1 + (symbols.takeWhile fun symbol => symbol.binding = 0).length

/-- The sections that hold symbols and their names. -/
def sections (symbols : List SymbolImage) : List SectionImage :=
  [⟨symbolSection, 2, table symbols, 0, some symbolNameSection,
      UInt32.ofNat (firstGlobal symbols), 24⟩,
    .plain symbolNameSection 3 (names symbols)]

end SymbolImage

namespace FileImage

/-- Zeros up to the next multiple of eight. -/
def padding (position : Nat) : List UInt8 :=
  List.replicate ((8 - position % 8) % 8) 0

/-- The next multiple of eight. -/
def aligned (position : Nat) : Nat :=
  position + (padding position).length

/-- The positions of contents that follow each other, aligned, from a position on. -/
def positions : (position : Nat) → List (List UInt8) → List Nat
  | _, [] => []
  | position, content :: rest =>
    aligned position :: positions (aligned position + content.length) rest

/-- Contents one after the other, aligned, from a position on, up to an aligned end. -/
def body : (position : Nat) → List (List UInt8) → List UInt8
  | position, [] => padding position
  | position, content :: rest =>
    padding position ++ content ++ body (aligned position + content.length) rest

/-- The size of a file header or a section header. -/
def headerSize : Nat := 64

/-- The name of the section that holds the names of the sections. -/
def nameSection : String := ".shstrtab"

/-- The names of all sections but the reserved one. -/
def names (image : FileImage) : List String :=
  image.sections.map SectionImage.name ++ [nameSection]

/-- The section that holds the names of the sections. -/
def nameTable (image : FileImage) : SectionImage :=
  .plain nameSection 3 (tableOfNames image.names)

/-- All sections but the reserved one. -/
def allSections (image : FileImage) : List SectionImage :=
  image.sections ++ [image.nameTable]

/-- The contents of all sections but the reserved one. -/
def contents (image : FileImage) : List (List UInt8) :=
  image.allSections.map SectionImage.content

/-- The index of the first section of a name, 0 if there is none. -/
def indexOf (image : FileImage) (name : String) : Nat :=
  match image.sections.findIdx? fun written => written.name = name with
  | some before => before + 1
  | none => 0

/-- The header of a section whose name and content stand at the given positions. -/
def sectionHeader (image : FileImage) (written : SectionImage) (name offset : Nat) :
    SectionHeader where
  name := UInt32.ofNat name
  type := written.type
  flags := 0
  address := 0
  offset := UInt64.ofNat offset
  size :=
    if written.type = SectionHeader.noBits then written.memorySize
    else UInt64.ofNat written.content.length
  link := UInt32.ofNat ((written.link.map image.indexOf).getD 0)
  info := written.info
  alignment := 1
  entrySize := written.entrySize

/-- The headers of all sections but the reserved one. -/
def sectionHeaders (image : FileImage) : List SectionHeader :=
  (image.allSections.zip ((namePositions 1 image.names).zip
    (positions headerSize image.contents))).map
      fun (written, name, offset) => image.sectionHeader written name offset

/-- The number of section headers. -/
def headerCount (image : FileImage) : Nat :=
  image.sections.length + 2

/-- The section header of the reserved section. -/
def reservedHeader (image : FileImage) : SectionHeader :=
  if image.extended then
    ⟨0, 0, 0, 0, 0, UInt64.ofNat image.headerCount, UInt32.ofNat (image.headerCount - 1),
      0, 1, 0⟩
  else ⟨0, 0, 0, 0, 0, 0, 0, 0, 0, 0⟩

/-- The first bytes of a little-endian 64-bit file. -/
def ident : Vector UInt8 16 :=
  #v[0x7f, 0x45, 0x4c, 0x46, 2, 1, 1, 0, 0, 0, 0, 0, 0, 0, 0, 0]

/-- The position of the section header table. -/
def tablePosition (image : FileImage) : Nat :=
  headerSize + (body headerSize image.contents).length

/-- The file header. -/
def fileHeader (image : FileImage) : FileHeader where
  ident := ident
  type := 1
  machine := 62
  version := 1
  entry := 0
  programHeaderOffset := 0
  sectionHeaderOffset := UInt64.ofNat image.tablePosition
  flags := 0
  headerSize := 64
  programHeaderSize := 0
  programHeaderCount := 0
  sectionHeaderSize := 64
  sectionHeaderCount := if image.extended then 0 else UInt16.ofNat image.headerCount
  sectionNameIndex := if image.extended then 0xffff else UInt16.ofNat (image.headerCount - 1)

/-- The whole file. -/
def toBytes (image : FileImage) : List UInt8 :=
  Layout.toBytes image.fileHeader ++ body headerSize image.contents ++
    (image.reservedHeader :: image.sectionHeaders).flatMap Layout.toBytes

end FileImage

end KernelExports
