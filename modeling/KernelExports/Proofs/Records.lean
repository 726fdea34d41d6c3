import Mathlib
import KernelExports.Elf.FileHeader
import KernelExports.Elf.SectionHeader
import KernelExports.Elf.SymbolRecord

/-!
# Records and their bytes

The file header, the section header and the symbol record are spelled in exactly one way: reading
undoes writing for every record, and writing undoes reading for every byte sequence of the right
size. The laws rest on the words that the fields are made of, where a number that is too large for
its width is cut down to the width.
-/

namespace KernelExports

namespace LittleEndian

/-- A written word reads back as the number modulo the range of the word. -/
@[simp] theorem value_bytes (width n : Nat) : value (bytes width n) = n % 256 ^ width := by
  induction width generalizing n with
  | zero => simp [bytes, value, Nat.mod_one]
  | succ width ih =>
    have split := Nat.mod_mul (a := 256) (b := 256 ^ width) (x := n)
    simp only [bytes, value, ih, UInt8.toNat_ofNat', Nat.pow_succ', split]

/-- The value of a word is bounded by its width. -/
theorem value_lt (word : List UInt8) : value word < 256 ^ word.length := by
  induction word with
  | nil => simp [value]
  | cons byte rest ih =>
    have low : byte.toNat < 256 := byte.toNat_lt
    simp only [value, List.length_cons, Nat.pow_succ']
    omega

/-- A field is bounded by its width. -/
theorem field_lt (record : List UInt8) (offset width : Nat) :
    field record offset width < 256 ^ width := by
  refine Nat.lt_of_lt_of_le (value_lt _) (Nat.pow_le_pow_right (by decide) ?_)
  simp only [List.length_take]
  omega

/-- A field of one byte is a number of 8 bits. -/
theorem toNat_ofNat_field_one (record : List UInt8) (offset : Nat) :
    (UInt8.ofNat (field record offset 1)).toNat = field record offset 1 := by
  have fits := field_lt record offset 1
  rw [UInt8.toNat_ofNat', Nat.mod_eq_of_lt (by omega)]

/-- A field of two bytes is a number of 16 bits. -/
theorem toNat_ofNat_field_two (record : List UInt8) (offset : Nat) :
    (UInt16.ofNat (field record offset 2)).toNat = field record offset 2 := by
  have fits := field_lt record offset 2
  rw [UInt16.toNat_ofNat', Nat.mod_eq_of_lt (by omega)]

/-- A field of four bytes is a number of 32 bits. -/
theorem toNat_ofNat_field_four (record : List UInt8) (offset : Nat) :
    (UInt32.ofNat (field record offset 4)).toNat = field record offset 4 := by
  have fits := field_lt record offset 4
  rw [UInt32.toNat_ofNat', Nat.mod_eq_of_lt (by omega)]

/-- A field of eight bytes is a number of 64 bits. -/
theorem toNat_ofNat_field_eight (record : List UInt8) (offset : Nat) :
    (UInt64.ofNat (field record offset 8)).toNat = field record offset 8 := by
  have fits := field_lt record offset 8
  rw [UInt64.toNat_ofNat', Nat.mod_eq_of_lt (by omega)]

end LittleEndian

open LittleEndian

namespace FileHeader

/-- A written file header is read as it was. -/
theorem ofBytes_toBytes (header : FileHeader) : ofBytes (toBytes header) = header := by
  have ident : (Vector.ofFn fun i : Fin 16 => (toBytes header).getD i 0) = header.ident := by
    ext i hi
    simp [toBytes, List.append_assoc, List.getElem?_append]
  have others : ofBytes (toBytes header) =
      { header with ident := Vector.ofFn fun i : Fin 16 => (toBytes header).getD i 0 } := by
    simp [ofBytes, toBytes, List.append_assoc, field_append_right, field_append_left, field_zero]
  rw [others, ident]

/-- A file header that was read is written as it stood there. -/
theorem toBytes_ofBytes (record : List UInt8) (h : record.length = 64) :
    toBytes (ofBytes record) = record := by
  have start : (Vector.ofFn fun i : Fin 16 => record.getD i 0).toList = record.take 16 := by
    apply List.ext_getElem
    · simp [h]
    · intro i hi hj
      have inside : i < record.length := by
        rw [List.length_take] at hj
        omega
      simp [List.getElem?_eq_getElem inside]
  simp only [ofBytes, toBytes, toNat_ofNat_field_two, toNat_ofNat_field_four,
    toNat_ofNat_field_eight]
  rw [start, take_append_bytes_field (by omega), take_append_bytes_field (by omega),
    take_append_bytes_field (by omega), take_append_bytes_field (by omega),
    take_append_bytes_field (by omega), take_append_bytes_field (by omega),
    take_append_bytes_field (by omega), take_append_bytes_field (by omega),
    take_append_bytes_field (by omega), take_append_bytes_field (by omega),
    take_append_bytes_field (by omega), take_append_bytes_field (by omega),
    take_append_bytes_field (by omega), List.take_of_length_le (by omega)]

instance : LawfulLayout FileHeader where
  length_toBytes record := by simp [Layout.toBytes, Layout.size, toBytes]
  ofBytes_toBytes := ofBytes_toBytes
  toBytes_ofBytes := toBytes_ofBytes

end FileHeader

namespace SectionHeader

/-- A written section header is read as it was. -/
theorem ofBytes_toBytes (record : SectionHeader) : ofBytes (toBytes record) = record := by
  simp [ofBytes, toBytes, List.append_assoc, field_append_right, field_append_left, field_zero]

/-- A section header that was read is written as it stood there. -/
theorem toBytes_ofBytes (record : List UInt8) (h : record.length = 64) :
    toBytes (ofBytes record) = record := by
  have start : bytes 4 (field record 0 4) = record.take 4 := bytes_field (by omega)
  simp only [ofBytes, toBytes, toNat_ofNat_field_four, toNat_ofNat_field_eight]
  rw [start, take_append_bytes_field (by omega), take_append_bytes_field (by omega),
    take_append_bytes_field (by omega), take_append_bytes_field (by omega),
    take_append_bytes_field (by omega), take_append_bytes_field (by omega),
    take_append_bytes_field (by omega), take_append_bytes_field (by omega),
    take_append_bytes_field (by omega), List.take_of_length_le (by omega)]

instance : LawfulLayout SectionHeader where
  length_toBytes record := by simp [Layout.toBytes, Layout.size, toBytes]
  ofBytes_toBytes := ofBytes_toBytes
  toBytes_ofBytes := toBytes_ofBytes

end SectionHeader

namespace SymbolRecord

/-- A written symbol is read as it was. -/
theorem ofBytes_toBytes (record : SymbolRecord) : ofBytes (toBytes record) = record := by
  simp [ofBytes, toBytes, List.append_assoc, field_append_right, field_append_left, field_zero]

/-- A symbol that was read is written as it stood there. -/
theorem toBytes_ofBytes (record : List UInt8) (h : record.length = 24) :
    toBytes (ofBytes record) = record := by
  have start : bytes 4 (field record 0 4) = record.take 4 := bytes_field (by omega)
  simp only [ofBytes, toBytes, toNat_ofNat_field_one, toNat_ofNat_field_two, toNat_ofNat_field_four,
    toNat_ofNat_field_eight]
  rw [start, take_append_bytes_field (by omega), take_append_bytes_field (by omega),
    take_append_bytes_field (by omega), take_append_bytes_field (by omega),
    take_append_bytes_field (by omega), List.take_of_length_le (by omega)]

instance : LawfulLayout SymbolRecord where
  length_toBytes record := by simp [Layout.toBytes, Layout.size, toBytes]
  ofBytes_toBytes := ofBytes_toBytes
  toBytes_ofBytes := toBytes_ofBytes

end SymbolRecord

end KernelExports
