/-!
# Byte ranges and fixed-size records

A file is a `ByteArray`, and everything read from it goes through `slice?`, which refuses a range
that does not lie inside. A `Layout` says how a record of a fixed number of bytes is spelled;
`decode?` reads such a record at an offset.

Offsets and sizes are natural numbers, so a range near the top of the 64-bit address space is
refused and never wraps around to the start of the file.
-/

namespace KernelExports

/-- The number of addresses of 64 bits, which is two to the power of 64. -/
def addressCount : Nat := 18446744073709551616

/-- The `size` bytes at `offset`, if all of them lie inside `data`. -/
def slice? (data : ByteArray) (offset size : Nat) : Option ByteArray :=
  if offset + size ≤ data.size then some (data.extract offset (offset + size)) else none

/-- A slice is missing exactly if the data ends before it does. -/
theorem slice?_eq_none_iff {data : ByteArray} {offset size : Nat} :
    slice? data offset size = none ↔ data.size < offset + size := by
  simp [slice?]

/-- A slice has the size that was asked for. -/
theorem size_of_slice? {data part : ByteArray} {offset size : Nat}
    (h : slice? data offset size = some part) : part.size = size := by
  unfold slice? at h
  split at h
  · cases h
    rw [ByteArray.size_extract]
    omega
  · cases h

/-- A range found inside a file is found unchanged when more bytes follow the file. -/
theorem slice?_append {data part : ByteArray} {offset size : Nat} (suffix : ByteArray)
    (h : slice? data offset size = some part) :
    slice? (data ++ suffix) offset size = some part := by
  unfold slice? at h ⊢
  split at h
  · next inside =>
    cases h
    have whole : offset + size ≤ (data ++ suffix).size := by
      rw [ByteArray.size_append]
      omega
    have start : offset - data.size = 0 := by omega
    have stop : offset + size - data.size = 0 := by omega
    rw [if_pos whole, ByteArray.extract_append, start, stop, ByteArray.extract_same,
      ByteArray.append_empty]
  · cases h

/-- A type whose values are spelled in a fixed number of bytes. -/
class Layout (α : Type) where
  /-- Bytes that a value occupies. -/
  size : Nat
  /-- The value spelled by a sequence of that many bytes. -/
  ofBytes : List UInt8 → α
  /-- The bytes of a value. -/
  toBytes : α → List UInt8

/-- The record stored at `offset`, if all of it lies inside `data`. -/
def decode? (α : Type) [Layout α] (data : ByteArray) (offset : Nat) : Option α :=
  (slice? data offset (Layout.size α)).map fun part => Layout.ofBytes part.data.toList

/-- The bytes of a record. -/
def encode {α : Type} [Layout α] (record : α) : ByteArray :=
  (Layout.toBytes record).toByteArray

/-- A record is missing exactly if the data ends before it does. -/
theorem decode?_eq_none_iff {α : Type} [Layout α] {data : ByteArray} {offset : Nat} :
    decode? α data offset = none ↔ data.size < offset + Layout.size α := by
  simp [decode?, slice?_eq_none_iff]

/-- The records that fill `data`, one after the other. A rest that is too short for a record is left
out. -/
def records (α : Type) [Layout α] (data : ByteArray) : List α :=
  (List.range (data.size / Layout.size α)).map fun i =>
    Layout.ofBytes
      (data.extract (i * Layout.size α) ((i + 1) * Layout.size α)).data.toList

/-- The two directions of a layout undo each other. -/
class LawfulLayout (α : Type) [Layout α] : Prop where
  /-- Every record has the stated size. -/
  length_toBytes (record : α) : (Layout.toBytes record).length = Layout.size α
  /-- A written record reads back. -/
  ofBytes_toBytes (record : α) : Layout.ofBytes (Layout.toBytes record) = record
  /-- A sequence of the stated size is the spelling of the record read from it. -/
  toBytes_ofBytes (bytes : List UInt8) (h : bytes.length = Layout.size α) :
    Layout.toBytes (Layout.ofBytes bytes : α) = bytes

end KernelExports
