import KernelExports.LittleEndian
import KernelExports.Layout

/-!
# Symbol table records

An entry of the symbol table of a 64-bit little-endian ELF file, and the part of it that says who
can see the symbol.
-/

namespace KernelExports

open LittleEndian

/-- The bindings under which a symbol can back an export. -/
inductive Binding where
  /-- Visible to every object file. -/
  | global
  /-- Visible, and gives way to a global symbol of the same name. -/
  | weak
  deriving DecidableEq, Repr

namespace Binding

/-- The number that stands for a binding. -/
def code : Binding → UInt8
  | global => 1
  | weak => 2

/-- The binding in the upper four bits of a symbol's info byte. Local, processor specific and
system specific bindings are left out. -/
def ofInfo? (info : UInt8) : Option Binding :=
  if info >>> 4 = 1 then some global
  else if info >>> 4 = 2 then some weak
  else none

/-- The name of a binding, as it is shown. -/
def text : Binding → String
  | global => "GLOBAL"
  | weak => "WEAK"

end Binding

/-- One entry of a symbol table. -/
structure SymbolRecord where
  /-- Position of the name in the symbol string table, zero if the symbol has none. -/
  name : UInt32
  /-- Binding in the upper four bits, kind in the lower four. -/
  info : UInt8
  /-- Visibility. -/
  other : UInt8
  /-- Index of the section that defines the symbol. -/
  sectionIndex : UInt16
  /-- Address, or offset in the section. -/
  value : UInt64
  /-- Size of the object that the symbol names. -/
  size : UInt64
  deriving DecidableEq, Repr

namespace SymbolRecord

/-- The record spelled by 24 bytes. -/
def ofBytes (bytes : List UInt8) : SymbolRecord where
  name := UInt32.ofNat (field bytes 0 4)
  info := UInt8.ofNat (field bytes 4 1)
  other := UInt8.ofNat (field bytes 5 1)
  sectionIndex := UInt16.ofNat (field bytes 6 2)
  value := UInt64.ofNat (field bytes 8 8)
  size := UInt64.ofNat (field bytes 16 8)

/-- The fields one after the other. -/
def toBytes (record : SymbolRecord) : List UInt8 :=
  bytes 4 record.name.toNat ++
  bytes 1 record.info.toNat ++
  bytes 1 record.other.toNat ++
  bytes 2 record.sectionIndex.toNat ++
  bytes 8 record.value.toNat ++
  bytes 8 record.size.toNat

instance : Layout SymbolRecord where
  size := 24
  ofBytes := ofBytes
  toBytes := toBytes

end SymbolRecord

end KernelExports
