import KernelExports.Error
import KernelExports.Elf.FileHeader
import KernelExports.Elf.SectionHeader
import KernelExports.Elf.StringTable

/-!
# The section header table

The sections of an ELF file, in the order of its section header table, with the string table that
holds their names. A table has two numbers, how many headers there are and under which index the
names stand, that move into the first section header when they are too large for the file header.

A name is looked up by walking over the table from index 1 on; index 0 is reserved. The walk ends
at the first section of the name, so later sections never matter, and it ends with a malformation
at a section whose name cannot be read.
-/

namespace KernelExports

/-- The section headers of a file and the content of their string table. -/
structure SectionTable where
  /-- All headers, the reserved one at index 0 included. -/
  headers : List SectionHeader
  /-- The string table that holds the names, empty if there are no headers. -/
  names : ByteArray

namespace SectionTable

/-- The number of section headers. Zero in the file header means that the number is the size field
of the first section header. -/
def count (file : ByteArray) (header : FileHeader) : Except Malformation Nat :=
  if header.sectionHeaderCount = 0 then
    match decode? SectionHeader file header.sectionHeaderOffset.toNat with
    | some first => .ok first.size.toNat
    | none => .error .sectionHeaderTruncated
  else .ok header.sectionHeaderCount.toNat

/-- The section headers. A file whose table has no position has none. -/
def readHeaders (file : ByteArray) (header : FileHeader) :
    Except Malformation (List SectionHeader) :=
  if header.sectionHeaderOffset = 0 then .ok []
  else if header.sectionHeaderSize ≠ 64 then
    .error (.sectionHeaderSize header.sectionHeaderSize)
  else
    match count file header with
    | .error fault => .error fault
    | .ok number =>
      if addressCount ≤ number * 64 then .error .sectionTableOverflow
      else
        match slice? file header.sectionHeaderOffset.toNat (number * 64) with
        | some table => .ok (records SectionHeader table)
        | none => .error .sectionTableTruncated

/-- The index of the string table that holds the names. The value `0xffff` in the file header means
that the index is the link field of the first section header. -/
def nameIndex (header : FileHeader) (first : SectionHeader) : Nat :=
  if header.sectionNameIndex = 0xffff then first.link.toNat else header.sectionNameIndex.toNat

/-- The content of the string table that the given section header describes. -/
def readNames (file : ByteArray) (names : SectionHeader) : Except Malformation ByteArray :=
  if addressCount ≤ names.offset.toNat + names.size.toNat then .error .nameTableOverflow
  else
    match slice? file names.offset.toNat names.size.toNat with
    | some table => .ok table
    | none => .error .nameTableTruncated

/-- The table of a file with the given headers. The names must stand under an index of the table
other than 0, so a table with names has at least two headers. -/
def ofHeaders (file : ByteArray) (header : FileHeader) (headers : List SectionHeader) :
    Except Malformation SectionTable :=
  match headers with
  | [] => .ok ⟨[], ByteArray.empty⟩
  | first :: others =>
    match nameIndex header first with
    | 0 => .error (.nameTableIndex 0)
    | before + 1 =>
      match others[before]? with
      | none => .error (.nameTableIndex (before + 1))
      | some names =>
        match readNames file names with
        | .error fault => .error fault
        | .ok table => .ok ⟨headers, table⟩

/-- The section table of a file. -/
def read (file : ByteArray) (header : FileHeader) : Except Malformation SectionTable :=
  match readHeaders file header with
  | .error fault => .error fault
  | .ok headers => ofHeaders file header headers

/-- The name of a section, as bytes. -/
def nameOf (names : ByteArray) (header : SectionHeader) : Except Malformation (List UInt8) :=
  match StringTable.entry names header.name.toNat with
  | .ok name => .ok name
  | .error .outOfRange => .error (.sectionNameOffset header.name names.size)
  | .error .unterminated => .error .sectionNameUnterminated

/-- The first header of a name. A name that cannot be read ends the walk. -/
def firstNamed (names : ByteArray) (name : List UInt8) :
    List SectionHeader → Except Malformation (Option SectionHeader)
  | [] => .ok none
  | header :: rest =>
    match nameOf names header with
    | .error fault => .error fault
    | .ok found => if found = name then .ok (some header) else firstNamed names name rest

/-- The header of the first section of a name. -/
def locate (table : SectionTable) (name : String) :
    Except Malformation (Option SectionHeader) :=
  firstNamed table.names (Utf8.encode name) table.headers.tail

end SectionTable

end KernelExports
