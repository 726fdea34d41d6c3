import KernelExports.Elf.SectionTable
import KernelExports.Elf.GlobalSymbols

/-!
# ELF files

A 64-bit little-endian ELF file that has been opened: its bytes, its header, its section table and
the content of its symbol string table, which is looked up once when the file is opened.

A file that does not start with the ELF magic is `notElf`; a file that does, but cannot be used,
is one of the other errors. A section that is missing is no error, one that was emptied by moving
its content into a debug file is `strippedSection`, and an empty one is malformed.
-/

namespace KernelExports

/-- A section together with its content. -/
structure Section where
  /-- The name under which the section was found. -/
  name : String
  /-- Its entry of the section header table. -/
  header : SectionHeader
  /-- Its content, never empty. -/
  data : ByteArray

/-- An open ELF file. -/
structure ElfFile where
  /-- The path under which the file was opened. -/
  path : String
  /-- The whole content. -/
  bytes : ByteArray
  /-- The header at the start. -/
  header : FileHeader
  /-- The section header table. -/
  sections : SectionTable
  /-- The content of the symbol string table, if the file has one. -/
  symbolNames : Option ByteArray

/-- The content of every path: bytes, or the reason why there are none. -/
abbrev FileSystem := String → Except OpenFailure ByteArray

namespace ElfFile

/-- The four bytes with which an ELF file starts. -/
def magic : List UInt8 := [0x7f, 0x45, 0x4c, 0x46]

/-- The file header, once class, version and data encoding are known to be supported. -/
def readHeader (bytes : ByteArray) : Except Error FileHeader :=
  if h : bytes.size < 16 then .error .notElf
  else if (bytes.extract 0 4).data.toList ≠ magic then .error .notElf
  else if bytes[4] ≠ 2 then .error (.unsupportedClass bytes[4])
  else if bytes[6] ≠ 1 then .error (.malformed (.version bytes[6]))
  else if bytes[5] ≠ 1 then .error (.malformed (.encoding bytes[5]))
  else
    match decode? FileHeader bytes 0 with
    | some header => .ok header
    | none => .error (.malformed .headerTruncated)

/-- The content of a section whose header has been found under a name. -/
def readSection (bytes : ByteArray) (name : String) (header : SectionHeader) :
    Except Error Section :=
  if header.type = SectionHeader.noBits then .error (.strippedSection name)
  else if header.size = 0 then .error (.malformed (.emptySection name))
  else
    match slice? bytes header.offset.toNat header.size.toNat with
    | some data => .ok ⟨name, header, data⟩
    | none => .error (.malformed (.sectionTruncated name header.offset header.size))

/-- The first section of a name, if there is one. -/
def findIn (bytes : ByteArray) (sections : SectionTable) (name : String) :
    Except Error (Option Section) :=
  match sections.locate name with
  | .error fault => .error (.malformed fault)
  | .ok none => .ok none
  | .ok (some header) =>
    match readSection bytes name header with
    | .error error => .error error
    | .ok found => .ok (some found)

/-- The header and the section table of a file. -/
def readTables (bytes : ByteArray) : Except Error (FileHeader × SectionTable) :=
  match readHeader bytes with
  | .error error => .error error
  | .ok header =>
    match SectionTable.read bytes header with
    | .error fault => .error (.malformed fault)
    | .ok sections => .ok (header, sections)

/-- The ELF file with the given content. -/
def ofBytes (path : String) (bytes : ByteArray) : Except Error ElfFile :=
  match readTables bytes with
  | .error error => .error error
  | .ok (header, sections) =>
    match findIn bytes sections symbolNameSection with
    | .error error => .error error
    | .ok names => .ok ⟨path, bytes, header, sections, names.map Section.data⟩

/-- The ELF file at a path. -/
def openAt (files : FileSystem) (path : String) : Except Error ElfFile :=
  match files path with
  | .error reason => .error (.cannotOpen path reason)
  | .ok bytes => ofBytes path bytes

/-- The number of section headers, the reserved one included. -/
def sectionCount (file : ElfFile) : Nat :=
  file.sections.headers.length

/-- The first section of a name, if there is one. -/
def find (file : ElfFile) (name : String) : Except Error (Option Section) :=
  findIn file.bytes file.sections name

/-- The named global and weak symbols of the file. -/
def globalSymbols (file : ElfFile) :
    Except Error (List (Except Malformation GlobalSymbol)) :=
  match file.find symbolSection with
  | .error error => .error error
  | .ok none => .error (.malformed (.missingSection symbolSection))
  | .ok (some symbols) =>
    match file.symbolNames with
    | none => .error (.malformed (.missingSection symbolNameSection))
    | some names =>
      match KernelExports.globalSymbols symbols.data names with
      | .error fault => .error (.malformed fault)
      | .ok items => .ok items

end ElfFile

end KernelExports
