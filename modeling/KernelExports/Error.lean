import KernelExports.Utf8

/-!
# Errors

What can go wrong between a path and a registry of symbols, as data. The wording stands in one
function per type, and `Error.isFatal` says which errors make it pointless to go on with other
files: a fatal error means that the file was produced by a build this library cannot work with.
-/

namespace KernelExports

/-- The reasons for which a path yields no content. -/
inductive OpenFailure where
  /-- A component of the path does not exist. -/
  | notFound
  /-- The file, or a directory on the way, is not accessible. -/
  | permissionDenied
  /-- A component that is not the last one is a file. -/
  | notADirectory
  /-- A component, or the whole path, is longer than the system allows. -/
  | nameTooLong
  /-- The path leads to a directory, which has no content to map. -/
  | noContent
  /-- The path contains a NUL character, which no path can. -/
  | nulInPath
  /-- Any other answer of the system, in its own words. -/
  | system (text : String) (code : Nat)
  deriving DecidableEq, Repr

/-- The wording of a failed attempt to open a path. -/
def OpenFailure.message : OpenFailure → String
  | notFound => "No such file or directory (os error 2)"
  | permissionDenied => "Permission denied (os error 13)"
  | notADirectory => "Not a directory (os error 20)"
  | nameTooLong => "File name too long (os error 36)"
  | noContent => "No such device (os error 19)"
  | nulInPath => "file name contained an unexpected NUL byte"
  | system text code => s!"{text} (os error {code})"

/-- The failure that the system reports under a number, in the words of the system where it is not
one of those above. A directory can be opened, but has no content. -/
def OpenFailure.ofCode (code : Nat) (text : String) : OpenFailure :=
  match code with
  | 2 => notFound
  | 13 => permissionDenied
  | 19 | 21 => noContent
  | 20 => notADirectory
  | 36 => nameTooLong
  | _ => system text code

/-- The ways in which a 64-bit ELF file, or one of its sections, is not well formed. -/
inductive Malformation where
  /-- The format has another version than 1. -/
  | version (found : UInt8)
  /-- The numbers are not little-endian. -/
  | encoding (found : UInt8)
  /-- The file ends inside its header. -/
  | headerTruncated
  /-- The section headers have another size than 64 bytes. -/
  | sectionHeaderSize (found : UInt16)
  /-- The file ends inside the section header that holds the number of sections. -/
  | sectionHeaderTruncated
  /-- The section header table is larger than the address space. -/
  | sectionTableOverflow
  /-- The section header table does not end inside the file. -/
  | sectionTableTruncated
  /-- No section has the index under which the section names are said to be. -/
  | nameTableIndex (index : Nat)
  /-- The section name string table does not end inside the address space. -/
  | nameTableOverflow
  /-- The section name string table does not end inside the file. -/
  | nameTableTruncated
  /-- A section name starts outside of the string table. -/
  | sectionNameOffset (offset : UInt32) (tableSize : Nat)
  /-- A section name has no end inside the string table. -/
  | sectionNameUnterminated
  /-- A section that has to have content has none. -/
  | emptySection (name : String)
  /-- The content of a section does not end inside the file. -/
  | sectionTruncated (name : String) (offset size : UInt64)
  /-- The file lacks a section that it has to have. -/
  | missingSection (name : String)
  /-- The symbol table does not consist of whole records. -/
  | symbolTableSize (found : Nat)
  /-- A symbol name starts outside of the string table. -/
  | symbolNameOffset (offset : UInt32) (tableSize : Nat)
  /-- A symbol name has no end inside the string table. -/
  | symbolNameUnterminated (offset : UInt32)
  /-- A symbol name is not UTF-8. -/
  | symbolNameEncoding (offset : UInt32) (defect : Utf8.Defect)
  /-- The list of exported names does not end in a NUL byte. -/
  | exportsUnterminated
  /-- An exported name is not UTF-8. -/
  | exportNameEncoding (offset : Nat) (defect : Utf8.Defect)
  /-- A fault that a caller found by itself, in its own words. -/
  | other (text : String)
  deriving DecidableEq, Repr

/-- The section that lists the exported names. -/
def exportSection : String := "__ksymtab_strings"

/-- The section that holds the symbol table. -/
def symbolSection : String := ".symtab"

/-- The section that holds the names of the symbol table. -/
def symbolNameSection : String := ".strtab"

/-- The wording of a malformation. -/
def Malformation.message : Malformation → String
  | version found => s!"Unsupported ELF version: {found.toNat}"
  | encoding found => s!"Unsupported ELF data encoding: {found.toNat}"
  | headerTruncated => "File is too small to contain an ELF header"
  | sectionHeaderSize found => s!"Unexpected section header entry size: {found.toNat}"
  | sectionHeaderTruncated => "Section header exceeds file size"
  | sectionTableOverflow => "Section headers size overflows"
  | sectionTableTruncated => "Section headers exceed file size"
  | nameTableIndex index => s!"Section name string table index {index} out of range"
  | nameTableOverflow => "Section name string table overflows"
  | nameTableTruncated => "Section name string table exceeds file size"
  | sectionNameOffset offset tableSize =>
    s!"Section name offset {offset.toNat} out of range " ++
      s!"(string table size: {tableSize})"
  | sectionNameUnterminated => "Section name is not null-terminated"
  | emptySection name => s!"{name} section empty!"
  | sectionTruncated name offset size =>
    s!"Section '{name}' content exceeds file size " ++
      s!"(offset: {offset.toNat}, size: {size.toNat})"
  | missingSection name => s!"Missing {name} section"
  | symbolTableSize found =>
    s!"Symbol table size {found} is not a multiple of the entry size 24"
  | symbolNameOffset offset tableSize =>
    s!"Symbol name index out of range: {offset.toNat} (string table size: {tableSize})"
  | symbolNameUnterminated offset =>
    s!"Symbol name at string table offset {offset.toNat} is not null-terminated"
  | symbolNameEncoding offset defect =>
    s!"Symbol name at string table offset {offset.toNat} is not valid UTF-8: " ++
      defect.message
  | exportsUnterminated => s!"Malformed {exportSection} section: missing terminating NUL byte"
  | exportNameEncoding offset defect =>
    s!"Malformed {exportSection} section: name at offset {offset} is not valid UTF-8: " ++
      defect.message
  | other text => text

/-- The errors of this library. -/
inductive Error where
  /-- The content of a path cannot be had. -/
  | cannotOpen (path : String) (reason : OpenFailure)
  /-- The file does not start like an ELF file. -/
  | notElf
  /-- The ELF file is not a 64-bit one. -/
  | unsupportedClass (found : UInt8)
  /-- The ELF file is not well formed. -/
  | malformed (fault : Malformation)
  /-- The content of the section was moved to another file. -/
  | strippedSection (name : String)
  /-- A registry already has a symbol of this name. -/
  | duplicateSymbol (name : String)
  /-- A registry has no symbols without a name. -/
  | emptySymbolName
  deriving DecidableEq, Repr

namespace Error

/-- The wording of an error. -/
def message : Error → String
  | cannotOpen path reason => s!"Failed to open file {path}: {reason.message}"
  | notElf => "Not an ELF file"
  | unsupportedClass found => s!"Unsupported elf class: {found.toNat}"
  | malformed fault => fault.message
  | strippedSection name =>
    s!"The {name} section has type SHT_NOBITS. Most likely you're running this tool on " ++
      s!"modules coming from kernel-debuginfo packages. They don't contain the {name} " ++
      "section, you need to use the raw modules before they are stripped"
  | duplicateSymbol name => s!"Duplicate symbol: {name}"
  | emptySymbolName => "Symbol name is empty"

/-- The wording of the error behind an error, if there is one. -/
def cause? : Error → Option String
  | cannotOpen _ reason => some reason.message
  | _ => none

/-- Whether there is no point in going on with other files. -/
def isFatal : Error → Bool
  | unsupportedClass _ | malformed _ | strippedSection _ => true
  | cannotOpen .. | notElf | duplicateSymbol _ | emptySymbolName => false

end Error

end KernelExports
