import KernelExports.LittleEndian
import KernelExports.Layout

/-!
# The ELF file header

The first 64 bytes of a 64-bit little-endian ELF file, field by field. Nothing is checked here:
every sequence of 64 bytes spells some header.
-/

namespace KernelExports

open LittleEndian

/-- The header at the start of an ELF file. -/
structure FileHeader where
  /-- Magic number, class, data encoding and version, then padding. -/
  ident : Vector UInt8 16
  /-- Relocatable, executable, shared object, … -/
  type : UInt16
  /-- Instruction set. -/
  machine : UInt16
  /-- Version of the format, a second time. -/
  version : UInt32
  /-- Address where a program starts. -/
  entry : UInt64
  /-- Position of the program header table in the file. -/
  programHeaderOffset : UInt64
  /-- Position of the section header table in the file, zero if there is none. -/
  sectionHeaderOffset : UInt64
  /-- Flags of the instruction set. -/
  flags : UInt32
  /-- Size of this header. -/
  headerSize : UInt16
  /-- Size of an entry of the program header table. -/
  programHeaderSize : UInt16
  /-- Number of entries of the program header table. -/
  programHeaderCount : UInt16
  /-- Size of an entry of the section header table. -/
  sectionHeaderSize : UInt16
  /-- Number of entries of the section header table, zero if it does not fit the field. -/
  sectionHeaderCount : UInt16
  /-- Index of the section that holds the section names, `0xffff` if it does not fit the field. -/
  sectionNameIndex : UInt16
  deriving DecidableEq, Repr

namespace FileHeader

/-- The header spelled by 64 bytes. -/
def ofBytes (bytes : List UInt8) : FileHeader where
  ident := Vector.ofFn fun i => bytes.getD i 0
  type := UInt16.ofNat (field bytes 16 2)
  machine := UInt16.ofNat (field bytes 18 2)
  version := UInt32.ofNat (field bytes 20 4)
  entry := UInt64.ofNat (field bytes 24 8)
  programHeaderOffset := UInt64.ofNat (field bytes 32 8)
  sectionHeaderOffset := UInt64.ofNat (field bytes 40 8)
  flags := UInt32.ofNat (field bytes 48 4)
  headerSize := UInt16.ofNat (field bytes 52 2)
  programHeaderSize := UInt16.ofNat (field bytes 54 2)
  programHeaderCount := UInt16.ofNat (field bytes 56 2)
  sectionHeaderSize := UInt16.ofNat (field bytes 58 2)
  sectionHeaderCount := UInt16.ofNat (field bytes 60 2)
  sectionNameIndex := UInt16.ofNat (field bytes 62 2)

/-- The fields one after the other. -/
def toBytes (header : FileHeader) : List UInt8 :=
  header.ident.toList ++
  bytes 2 header.type.toNat ++
  bytes 2 header.machine.toNat ++
  bytes 4 header.version.toNat ++
  bytes 8 header.entry.toNat ++
  bytes 8 header.programHeaderOffset.toNat ++
  bytes 8 header.sectionHeaderOffset.toNat ++
  bytes 4 header.flags.toNat ++
  bytes 2 header.headerSize.toNat ++
  bytes 2 header.programHeaderSize.toNat ++
  bytes 2 header.programHeaderCount.toNat ++
  bytes 2 header.sectionHeaderSize.toNat ++
  bytes 2 header.sectionHeaderCount.toNat ++
  bytes 2 header.sectionNameIndex.toNat

instance : Layout FileHeader where
  size := 64
  ofBytes := ofBytes
  toBytes := toBytes

end FileHeader

end KernelExports
