import KernelExports.LittleEndian
import KernelExports.Layout

/-!
# Section headers

An entry of the section header table of a 64-bit little-endian ELF file.
-/

namespace KernelExports

open LittleEndian

/-- The description of one section. -/
structure SectionHeader where
  /-- Position of the name in the section name string table. -/
  name : UInt32
  /-- Kind of the content. -/
  type : UInt32
  /-- Writable, loaded, executable, … -/
  flags : UInt64
  /-- Address in memory. -/
  address : UInt64
  /-- Position of the content in the file. -/
  offset : UInt64
  /-- Size of the content. -/
  size : UInt64
  /-- Index of a related section. -/
  link : UInt32
  /-- A number whose meaning depends on the kind. -/
  info : UInt32
  /-- Alignment of the address. -/
  alignment : UInt64
  /-- Size of an entry, if the content is a table. -/
  entrySize : UInt64
  deriving DecidableEq, Repr

namespace SectionHeader

/-- The kind of a section that has a size but no content in the file. -/
def noBits : UInt32 := 8

/-- The header spelled by 64 bytes. -/
def ofBytes (bytes : List UInt8) : SectionHeader where
  name := UInt32.ofNat (field bytes 0 4)
  type := UInt32.ofNat (field bytes 4 4)
  flags := UInt64.ofNat (field bytes 8 8)
  address := UInt64.ofNat (field bytes 16 8)
  offset := UInt64.ofNat (field bytes 24 8)
  size := UInt64.ofNat (field bytes 32 8)
  link := UInt32.ofNat (field bytes 40 4)
  info := UInt32.ofNat (field bytes 44 4)
  alignment := UInt64.ofNat (field bytes 48 8)
  entrySize := UInt64.ofNat (field bytes 56 8)

/-- The fields one after the other. -/
def toBytes (header : SectionHeader) : List UInt8 :=
  bytes 4 header.name.toNat ++
  bytes 4 header.type.toNat ++
  bytes 8 header.flags.toNat ++
  bytes 8 header.address.toNat ++
  bytes 8 header.offset.toNat ++
  bytes 8 header.size.toNat ++
  bytes 4 header.link.toNat ++
  bytes 4 header.info.toNat ++
  bytes 8 header.alignment.toNat ++
  bytes 8 header.entrySize.toNat

instance : Layout SectionHeader where
  size := 64
  ofBytes := ofBytes
  toBytes := toBytes

end SectionHeader

end KernelExports
