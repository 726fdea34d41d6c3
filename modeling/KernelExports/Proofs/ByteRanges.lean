import KernelExports.Proofs.Records

/-!
# Where byte sequences stand

`Placed data offset content` says that `content` stands at `offset` in `data`, by cutting the data
in three. Slices and records are both found exactly where they stand, so what is read at an offset
and what was written there are compared through this one relation.
-/

namespace KernelExports

/-- The bytes of `content` stand in `data` from `offset` on. -/
def Placed (data : ByteArray) (offset : Nat) (content : List UInt8) : Prop :=
  ∃ front back, data.data.toList = front ++ (content ++ back) ∧ front.length = offset

/-- There are as many bytes in the list as in the array. -/
@[simp] theorem length_toList_data (data : ByteArray) : data.data.toList.length = data.size := by
  rw [Array.length_toList, ByteArray.size_data]

/-- Arrays with the same list of bytes are the same. -/
theorem toList_data_inj {first second : ByteArray} :
    first.data.toList = second.data.toList ↔ first = second := by
  rw [Array.toList_inj, ByteArray.ext_iff]

namespace Placed

/-- Standing somewhere is a bound and an equation between lists. -/
theorem iff_take_drop {data : ByteArray} {offset : Nat} {content : List UInt8} :
    Placed data offset content ↔
      offset + content.length ≤ data.size ∧
        (data.data.toList.drop offset).take content.length = content := by
  constructor
  · intro placed
    obtain ⟨front, back, h, rfl⟩ := placed
    have size := congrArg List.length h
    simp only [length_toList_data, List.length_append] at size
    have bound : front.length + content.length ≤ data.size := by omega
    have found : (data.data.toList.drop front.length).take content.length = content := by
      rw [h, List.drop_left, List.take_left]
    exact ⟨bound, found⟩
  · intro h
    obtain ⟨bound, found⟩ := h
    have whole : data.data.toList =
        data.data.toList.take offset ++
          (content ++ data.data.toList.drop (offset + content.length)) := by
      rw [← found, List.length_take, List.length_drop, length_toList_data,
        Nat.min_eq_left (by omega), ← List.drop_drop, List.take_append_drop,
        List.take_append_drop]
    have start : (data.data.toList.take offset).length = offset := by
      rw [List.length_take, length_toList_data, Nat.min_eq_left (by omega)]
    exact ⟨_, _, whole, start⟩

/-- What stands at an offset ends inside the data. -/
theorem le {data : ByteArray} {offset : Nat} {content : List UInt8}
    (h : Placed data offset content) : offset + content.length ≤ data.size :=
  (iff_take_drop.mp h).1

/-- Two sequences that stand one behind the other are one sequence. -/
theorem append_iff {data : ByteArray} {offset : Nat} {first second : List UInt8} :
    Placed data offset (first ++ second) ↔
      Placed data offset first ∧ Placed data (offset + first.length) second := by
  constructor
  · intro placed
    obtain ⟨front, back, h, rfl⟩ := placed
    have first_at : data.data.toList = front ++ (first ++ (second ++ back)) := by
      rw [h, List.append_assoc]
    have second_at : data.data.toList = (front ++ first) ++ (second ++ back) := by
      rw [first_at, List.append_assoc]
    exact ⟨⟨front, _, first_at, rfl⟩, ⟨_, back, second_at, List.length_append⟩⟩
  · intro h
    have first_at := iff_take_drop.mp h.1
    have second_at := iff_take_drop.mp h.2
    have bound : offset + (first ++ second).length ≤ data.size := by
      rw [List.length_append]
      omega
    have found : (data.data.toList.drop offset).take (first ++ second).length =
        first ++ second := by
      rw [List.length_append, List.take_add, first_at.2, List.drop_drop, second_at.2]
    exact iff_take_drop.mpr ⟨bound, found⟩

/-- Sequences of the same length that stand at the same place are the same. -/
theorem eq_of_length {data : ByteArray} {offset : Nat} {first second : List UInt8}
    (placed : Placed data offset first) (placed' : Placed data offset second)
    (length : first.length = second.length) : first = second := by
  have stands := (iff_take_drop.mp placed).2
  have stands' := (iff_take_drop.mp placed').2
  rw [← stands, ← stands', length]

/-- A single byte stands where it has its index. -/
theorem singleton_iff {data : ByteArray} {offset : Nat} {byte : UInt8} :
    Placed data offset [byte] ↔ data.data[offset]? = some byte := by
  rw [iff_take_drop, ← Array.getElem?_toList]
  constructor
  · rintro ⟨-, stands⟩
    have first := congrArg List.head? stands
    rwa [List.head?_take, if_neg (by simp), List.head?_drop] at first
  · intro stands
    obtain ⟨inside, found⟩ := List.getElem?_eq_some_iff.mp stands
    rw [length_toList_data] at inside
    rw [List.drop_eq_getElem_cons (by rwa [length_toList_data]), found]
    exact ⟨inside, rfl⟩

/-- What stands in a list of bytes splits the list in three. -/
theorem toByteArray_iff {bytes content : List UInt8} {offset : Nat} :
    Placed bytes.toByteArray offset content ↔
      ∃ front back, bytes = front ++ (content ++ back) ∧ front.length = offset := by
  rw [Placed, List.toList_data_toByteArray]

end Placed

/-- The bytes of an extract of a given size. -/
theorem toList_data_extract_append (data : ByteArray) (offset size : Nat) :
    (data.extract offset (offset + size)).data.toList =
      (data.data.toList.drop offset).take size := by
  rw [ByteArray.data_extract, Array.toList_extract, List.extract_eq_take_drop,
    Nat.add_sub_cancel_left]

/-- A slice is what stands in its range. -/
theorem slice?_eq_some_iff {data part : ByteArray} {offset size : Nat} :
    slice? data offset size = some part ↔
      part.size = size ∧ Placed data offset part.data.toList := by
  rw [Placed.iff_take_drop, length_toList_data, slice?]
  constructor
  · intro h
    split at h
    · next inside =>
      cases h
      have whole : (data.extract offset (offset + size)).size = size := by
        rw [ByteArray.size_extract]
        omega
      rw [whole, toList_data_extract_append]
      exact ⟨rfl, inside, rfl⟩
    · cases h
  · intro h
    obtain ⟨rfl, inside, stands⟩ := h
    rw [if_pos inside, Option.some_inj, ← toList_data_inj, toList_data_extract_append, stands]

/-- A slice that is found ends inside the data. -/
theorem le_of_slice? {data part : ByteArray} {offset size : Nat}
    (found : slice? data offset size = some part) : offset + size ≤ data.size := by
  obtain ⟨rfl, placed⟩ := slice?_eq_some_iff.mp found
  rw [← length_toList_data part]
  exact placed.le

/-- The slice at the offset of a content is the content. -/
theorem Placed.slice?_eq {data : ByteArray} {offset : Nat} {content : List UInt8}
    (h : Placed data offset content) :
    slice? data offset content.length = some content.toByteArray := by
  rw [slice?_eq_some_iff, List.size_toByteArray, List.toList_data_toByteArray]
  exact ⟨rfl, h⟩

section Layouts

variable {α : Type} [Layout α]

/-- A record is read where it is spelled out, and nowhere else. -/
theorem decode?_eq_some_iff [LawfulLayout α] {data : ByteArray} {offset : Nat} {record : α} :
    decode? α data offset = some record ↔ Placed data offset (Layout.toBytes record) := by
  rw [decode?, Option.map_eq_some_iff]
  constructor
  · intro h
    obtain ⟨part, found, rfl⟩ := h
    obtain ⟨whole, stands⟩ := slice?_eq_some_iff.mp found
    have length : part.data.toList.length = Layout.size α := by
      rw [length_toList_data, whole]
    rwa [LawfulLayout.toBytes_ofBytes _ length]
  · intro h
    have part := h.slice?_eq
    rw [LawfulLayout.length_toBytes] at part
    have record_read :
        Layout.ofBytes (Layout.toBytes record).toByteArray.data.toList = record := by
      rw [List.toList_data_toByteArray, LawfulLayout.ofBytes_toBytes]
    exact ⟨_, part, record_read⟩

/-- The records of a table are those at the multiples of their size. -/
theorem getElem?_records (positive : 0 < Layout.size α) (data : ByteArray) (index : Nat) :
    (records α data)[index]? = decode? α data (Layout.size α * index) := by
  have inside : index < data.size / Layout.size α ↔
      Layout.size α * index + Layout.size α ≤ data.size := by
    rw [← Nat.add_one_le_iff, Nat.le_div_iff_mul_le positive, Nat.add_mul, Nat.one_mul,
      Nat.mul_comm index]
  rw [records, decode?, slice?, List.getElem?_map]
  by_cases h : index < data.size / Layout.size α
  · rw [List.getElem?_range h, if_pos (inside.mp h), Option.map_some, Option.map_some,
      Nat.add_mul, Nat.one_mul, Nat.mul_comm index]
  · rw [List.getElem?_eq_none (by rw [List.length_range]; omega),
      if_neg (fun bound => h (inside.mpr bound)), Option.map_none, Option.map_none]

end Layouts

end KernelExports
