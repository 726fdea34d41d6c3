import KernelExports.Proofs.ByteRanges
import KernelExports.Utf8
import KernelExports.Elf.StringTable

/-!
# Names as bytes

Text and its UTF-8 bytes determine each other, and a string table has at each offset at most one
entry, the bytes up to the first NUL byte. `StringTable.HasEntry` says which one, without the walk
that finds it.
-/

namespace KernelExports

namespace Utf8

/-- The text that bytes are decoded to is the only one that is encoded as these bytes. -/
theorem decode_eq_ok_iff {bytes : List UInt8} {text : String} :
    decode bytes = .ok text ↔ encode text = bytes := by
  have same : encode text = bytes ↔ text.toByteArray = bytes.toByteArray := by
    rw [encode, String.toUTF8_eq_toByteArray, ← toList_data_inj, List.toList_data_toByteArray]
  rw [same, decode, String.fromUTF8?]
  by_cases valid : bytes.toByteArray.IsValidUTF8
  · rw [dif_pos valid]
    dsimp only
    rw [Except.ok.injEq, ← String.toByteArray_inj, String.fromUTF8]
    exact eq_comm
  · have spelled : ¬ text.toByteArray = bytes.toByteArray := by
      intro h
      exact valid (h ▸ text.isValidUTF8)
    rw [dif_neg valid]
    simp only [reduceCtorEq, spelled]

/-- An encoded text is decoded again. -/
@[simp] theorem decode_encode (text : String) : decode (encode text) = .ok text :=
  decode_eq_ok_iff.mpr rfl

/-- Different texts are encoded differently. -/
@[simp] theorem encode_inj {first second : String} :
    encode first = encode second ↔ first = second := by
  rw [← decode_eq_ok_iff, decode_encode, Except.ok.injEq]
  exact eq_comm

/-- The empty text has no bytes. -/
@[simp] theorem encode_empty : encode "" = [] := rfl

/-- No text but the empty one has no bytes. -/
@[simp] theorem encode_eq_nil_iff {text : String} : encode text = [] ↔ text = "" := by
  rw [← encode_empty, encode_inj]

/-- A text has its place among texts also when all are encoded. -/
theorem idxOf_map_encode (names : List String) (name : String) :
    (names.map encode).idxOf (encode name) = names.idxOf name := by
  induction names with
  | nil => rfl
  | cons first rest ih =>
    have same : (encode first == encode name) = (first == name) := by
      rw [Bool.eq_iff_iff, beq_iff_eq, beq_iff_eq, encode_inj]
    rw [List.map_cons, List.idxOf_cons, List.idxOf_cons, ih, same]

end Utf8

/-- A byte sequence has no NUL byte or a first one. -/
theorem nul_cases (bytes : List UInt8) :
    0 ∉ bytes ∨ ∃ run rest, bytes = run ++ 0 :: rest ∧ 0 ∉ run := by
  by_cases h : 0 ∈ bytes
  · exact .inr (List.eq_append_cons_of_mem h)
  · exact .inl h

/-- Sequences are made of runs without NUL bytes, one behind the other. -/
theorem nul_induction {motive : List UInt8 → Prop} (free : ∀ run, 0 ∉ run → motive run)
    (cut : ∀ run rest, 0 ∉ run → motive rest → motive (run ++ 0 :: rest))
    (bytes : List UInt8) : motive bytes := by
  rcases nul_cases bytes with h | ⟨run, rest, split, h⟩
  · exact free bytes h
  · have shorter : rest.length < bytes.length := by
      rw [split, List.length_append, List.length_cons]
      omega
    rw [split]
    exact cut run rest h (nul_induction free cut rest)
termination_by bytes.length

/-- The search in a byte array is the search in the list behind the start. -/
theorem findIdx?_toList_drop (data : ByteArray) (found : UInt8 → Bool) (start : Nat) :
    data.findIdx? found start =
      ((data.data.toList.drop start).findIdx? found).map (start + ·) := by
  rw [ByteArray.findIdx?]
  fun_induction ByteArray.findIdx?.loop data found start with
  | case1 start inside hit =>
    have listed : start < data.data.toList.length := by rwa [length_toList_data]
    have hit' : found data.data.toList[start] = true := by
      simpa [ByteArray.getElem_eq_getElem_data] using hit
    rw [List.drop_eq_getElem_cons listed, List.findIdx?_cons, if_pos hit']
    rfl
  | case2 start inside miss ih =>
    have listed : start < data.data.toList.length := by rwa [length_toList_data]
    have miss' : ¬ found data.data.toList[start] = true := by
      simpa [ByteArray.getElem_eq_getElem_data] using miss
    rw [List.drop_eq_getElem_cons listed, List.findIdx?_cons, if_neg miss', ih]
    simp only [Option.map_map, Function.comp_def, Nat.add_right_comm, Nat.add_assoc]
  | case3 start outside =>
    have nothing : data.data.toList.length ≤ start := by
      rw [length_toList_data]
      omega
    rw [List.drop_of_length_le nothing]
    rfl

/-- The first NUL byte is the one behind a run without NUL bytes. -/
theorem findIdx?_zero {run rest : List UInt8} (free : 0 ∉ run) :
    (run ++ 0 :: rest).findIdx? (· == 0) = some run.length := by
  have none_before : run.findIdx? (· == 0) = none := by
    rw [List.findIdx?_eq_none_iff]
    intro byte member
    exact beq_false_of_ne (ne_of_mem_of_not_mem member free)
  rw [List.findIdx?_append, none_before]
  simp [List.findIdx?_cons]

namespace StringTable

/-- The entry at an offset: its bytes stand there with the NUL byte that ends them, and no other
NUL byte is among them. -/
def HasEntry (table : ByteArray) (offset : Nat) (name : List UInt8) : Prop :=
  0 ∉ name ∧ Placed table offset (name ++ [0])

/-- An entry stands at an offset if the rest from there begins with it and a NUL byte. -/
theorem hasEntry_iff_drop {table : ByteArray} {offset : Nat} {name : List UInt8} :
    HasEntry table offset name ↔
      0 ∉ name ∧ ∃ rest, table.data.toList.drop offset = name ++ 0 :: rest := by
  refine and_congr_right fun _ => ?_
  constructor
  · intro placed
    obtain ⟨front, back, h, rfl⟩ := placed
    have behind : table.data.toList.drop front.length = name ++ 0 :: back := by
      rw [h, List.drop_left, List.append_assoc, List.singleton_append]
    exact ⟨back, behind⟩
  · intro h
    obtain ⟨rest, behind⟩ := h
    have size := congrArg List.length behind
    simp only [List.length_drop, List.length_append, List.length_cons] at size
    have whole : table.data.toList =
        table.data.toList.take offset ++ (name ++ [0] ++ rest) := by
      rw [List.append_assoc, List.singleton_append, ← behind, List.take_append_drop]
    have start : (table.data.toList.take offset).length = offset := by
      rw [List.length_take]
      omega
    exact ⟨_, rest, whole, start⟩

/-- There is no entry at an offset behind the end. -/
theorem entry_outside {table : ByteArray} {offset : Nat} (h : table.size ≤ offset) :
    entry table offset = .error .outOfRange := by
  rw [entry, if_neg (Nat.not_lt.mpr h)]

/-- There is no entry where no NUL byte follows. -/
theorem entry_unterminated {table : ByteArray} {offset : Nat} (inside : offset < table.size)
    (h : 0 ∉ table.data.toList.drop offset) : entry table offset = .error .unterminated := by
  have none_found : (table.data.toList.drop offset).findIdx? (· == 0) = none := by
    rw [List.findIdx?_eq_none_iff]
    intro byte member
    exact beq_false_of_ne (ne_of_mem_of_not_mem member h)
  rw [entry, if_pos inside, findIdx?_toList_drop, none_found]
  rfl

/-- An entry that stands at an offset is found there. -/
theorem entry_of_drop {table : ByteArray} {offset : Nat} {name rest : List UInt8}
    (free : 0 ∉ name) (h : table.data.toList.drop offset = name ++ 0 :: rest) :
    entry table offset = .ok name := by
  have size := congrArg List.length h
  simp only [List.length_drop, length_toList_data, List.length_append, List.length_cons] at size
  have inside : offset < table.size := by omega
  rw [entry, if_pos inside, findIdx?_toList_drop, h, findIdx?_zero free]
  simp only [Option.map_some]
  rw [toList_data_extract_append, h, List.take_left]

/-- The entry that is found is the one that stands there. -/
theorem entry_eq_ok_iff {table : ByteArray} {offset : Nat} {name : List UInt8} :
    entry table offset = .ok name ↔ HasEntry table offset name := by
  rw [hasEntry_iff_drop]
  constructor
  · intro h
    by_cases inside : offset < table.size
    · rcases nul_cases (table.data.toList.drop offset) with free | ⟨run, rest, split, free⟩
      · rw [entry_unterminated inside free] at h
        cases h
      · rw [entry_of_drop free split] at h
        cases h
        exact ⟨free, rest, split⟩
    · rw [entry_outside (Nat.not_lt.mp inside)] at h
      cases h
  · intro h
    obtain ⟨free, rest, behind⟩ := h
    exact entry_of_drop free behind

/-- One entry stands at an offset. -/
theorem HasEntry.unique {table : ByteArray} {offset : Nat} {first second : List UInt8}
    (h : HasEntry table offset first) (h' : HasEntry table offset second) : first = second := by
  rw [← entry_eq_ok_iff] at h h'
  exact Except.ok.inj (h.symm.trans h')

end StringTable

end KernelExports
