/-!
# Little-endian words

Unsigned numbers as byte sequences with the least significant byte first. `value` reads such a
sequence and `bytes` writes the lowest bytes of a number; writing undoes reading (`bytes_value`).
`field` reads a word that stands at a fixed place of a record.
-/

namespace KernelExports.LittleEndian

/-- The number whose digits in base 256 are the bytes, lowest digit first. -/
def value : List UInt8 → Nat
  | [] => 0
  | byte :: rest => byte.toNat + 256 * value rest

/-- The lowest `width` bytes of a number. -/
def bytes : (width : Nat) → Nat → List UInt8
  | 0, _ => []
  | width + 1, n => UInt8.ofNat n :: bytes width (n / 256)

/-- The number that a record holds in the `width` bytes at `offset`. -/
def field (record : List UInt8) (offset width : Nat) : Nat :=
  value ((record.drop offset).take width)

/-- A number is written in as many bytes as were asked for. -/
@[simp] theorem length_bytes (width n : Nat) : (bytes width n).length = width := by
  induction width generalizing n with
  | zero => rfl
  | succ width ih => simp [bytes, ih]

/-- A word is the only one of its length with its value. -/
@[simp] theorem bytes_value (word : List UInt8) : bytes word.length (value word) = word := by
  induction word with
  | nil => rfl
  | cons byte rest ih =>
    have low : byte.toNat < 256 := byte.toNat_lt
    have tail : (byte.toNat + 256 * value rest) / 256 = value rest := by omega
    have head : UInt8.ofNat (byte.toNat + 256 * value rest) = byte := by
      apply UInt8.toNat_inj.mp
      simp only [UInt8.toNat_ofNat']
      omega
    simp only [List.length_cons, bytes, value, tail, ih, head]

/-- A field behind a known beginning is a field of what follows it. -/
theorem field_append_right {front rest : List UInt8} {offset width : Nat}
    (h : front.length ≤ offset) :
    field (front ++ rest) offset width = field rest (offset - front.length) width := by
  unfold field
  rw [List.drop_append, List.drop_of_length_le h, List.nil_append]

/-- The first field is the word that stands there. -/
theorem field_append_left {front rest : List UInt8} {width : Nat} (h : front.length = width) :
    field (front ++ rest) 0 width = value front := by
  subst h
  simp [field]

/-- A record of one field is the word itself. -/
theorem field_zero {word : List UInt8} {width : Nat} (h : word.length = width) :
    field word 0 width = value word := by
  subst h
  simp [field]

/-- Writing a field gives back the bytes that it was read from. -/
theorem bytes_field {record : List UInt8} {offset width : Nat}
    (h : offset + width ≤ record.length) :
    bytes width (field record offset width) = (record.drop offset).take width := by
  have exact_width : ((record.drop offset).take width).length = width := by
    simp only [List.length_take, List.length_drop]
    omega
  have written := bytes_value ((record.drop offset).take width)
  rwa [exact_width] at written

/-- Writing the next field behind what has been written extends the copy of the record. -/
theorem take_append_bytes_field {record : List UInt8} {offset width : Nat}
    (h : offset + width ≤ record.length) :
    record.take offset ++ bytes width (field record offset width) =
      record.take (offset + width) := by
  rw [bytes_field h, List.take_add]

end KernelExports.LittleEndian
