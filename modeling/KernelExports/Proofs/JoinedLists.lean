import KernelExports.Proofs.SplitterItems

/-!
# Lists of exports that are joined

The list of exports of a module is made of those of its parts, one behind the other. Each of them
ends in a NUL byte, so no name reaches over a seam: the items of two joined lists are those of the
first one and, behind them, those of the second one. The indices of the latter grow by the number of
all items of the first list, also of those that are no text or repeat a name, and where they say a
position it grows by the size of the first list.
-/

namespace KernelExports

namespace ExportNames

/-! ### Positions and indices behind a list -/

/-- The segment, so many bytes further back. -/
def Segment.movedBy (segment : Segment) (size : Nat) : Segment :=
  ⟨segment.offset + size, segment.bytes⟩

/-- The item of a list as it is behind a list of so many bytes and so many items. -/
def itemBehind (size count : Nat) :
    Except Malformation ExportName → Except Malformation ExportName
  | .ok item => .ok { item with index := item.index + count }
  | .error (.exportNameEncoding offset defect) =>
    .error (.exportNameEncoding (offset + size) defect)
  | .error fault => .error fault

/-- A segment further back gives the item of the segment, further back. -/
theorem read_movedBy (segment : Segment) (index size count : Nat) :
    (segment.movedBy size).read (index + count) = itemBehind size count (segment.read index) := by
  dsimp only [Segment.read, Segment.movedBy]
  cases Utf8.decode segment.bytes with
  | ok name => rfl
  | error defect => rfl

/-- A run of bytes further back gives its segment, further back. -/
theorem segmentOf_add (position size : Nat) (run : List UInt8) :
    segmentOf (position + size) run = (segmentOf position run).map fun segment =>
      segment.movedBy size := by
  cases run with
  | nil => rfl
  | cons byte rest => rfl

/-- Bytes that stand further back have the same segments further back. -/
theorem segmentsFrom_add (position size : Nat) (bytes : List UInt8) :
    segmentsFrom (position + size) bytes = (segmentsFrom position bytes).map fun segment =>
      segment.movedBy size := by
  induction bytes using nul_induction generalizing position with
  | free run free => rw [segmentsFrom_of_free free, segmentsFrom_of_free free, segmentOf_add]
  | cut run rest free ih =>
    have behind : position + size + run.length + 1 = position + run.length + 1 + size := by omega
    rw [segmentsFrom_append free, segmentsFrom_append free, List.map_append, segmentOf_add, behind,
      ih]

/-- There are no bytes, or the last of them is a NUL byte. -/
def Closed (bytes : List UInt8) : Prop :=
  bytes = [] ∨ bytes.getLast? = some 0

/-- A run of bytes with a NUL byte behind it does not open a closed sequence. -/
theorem Closed.cut {rest : List UInt8} (closed : Closed rest) (run : List UInt8) :
    Closed (run ++ 0 :: rest) := by
  rcases closed with empty | last
  · rw [empty]
    exact .inr List.getLast?_concat
  · exact .inr (by simp [List.getLast?_append, List.getLast?_cons, last])

/-- Closed sequences are made of runs without NUL bytes, each with a NUL byte behind it. -/
theorem closed_induction {motive : (bytes : List UInt8) → Closed bytes → Prop}
    (nil : motive [] (.inl rfl))
    (cut : ∀ run rest, 0 ∉ run → ∀ closed : Closed rest, motive rest closed →
      motive (run ++ 0 :: rest) (closed.cut run))
    {bytes : List UInt8} (closed : Closed bytes) : motive bytes closed := by
  induction bytes using nul_induction with
  | free run free =>
    have empty : run = [] := closed.resolve_right fun last => free (List.mem_of_getLast? last)
    subst empty
    exact nil
  | cut run rest free ih =>
    have closed_rest : Closed rest := by
      cases rest with
      | nil => exact .inl rfl
      | cons byte others => exact .inr (by simpa [Closed] using closed)
    exact cut run rest free closed_rest (ih closed_rest)

/-- The segments of a closed sequence and those of what stands behind it are kept apart. -/
theorem segmentsFrom_joined {first : List UInt8} (closed : Closed first) (position : Nat)
    (second : List UInt8) :
    segmentsFrom position (first ++ second) =
      segmentsFrom position first ++ segmentsFrom (position + first.length) second := by
  induction closed using closed_induction generalizing position with
  | nil =>
    rw [segmentsFrom_of_free List.not_mem_nil]
    rfl
  | cut run rest free _ ih =>
    have seam : position + (run ++ 0 :: rest).length =
        position + run.length + 1 + rest.length := by
      rw [List.length_append, List.length_cons]
      omega
    rw [List.append_assoc, List.cons_append, segmentsFrom_append free, segmentsFrom_append free, ih,
      List.append_assoc, seam]

/-! ### Items of joined lists -/

/-- The items of all segments, in order. -/
def itemsOf (bytes : List UInt8) : List (Except Malformation ExportName) :=
  (segments bytes).zipIdx.map fun (segment, index) => segment.read index

/-- There is one item for each segment. -/
theorem length_itemsOf (bytes : List UInt8) : (itemsOf bytes).length = (segments bytes).length := by
  rw [itemsOf, List.length_map, List.length_zipIdx]

/-- Segments further back give their items, further back. -/
theorem map_read_movedBy (found : List Segment) (index size count : Nat) :
    ((found.map fun segment => segment.movedBy size).zipIdx (index + count)).map
        (fun (segment, index) => segment.read index) =
      ((found.zipIdx index).map fun (segment, index) => segment.read index).map
        (itemBehind size count) := by
  induction found generalizing index with
  | nil => rfl
  | cons segment rest ih =>
    have next : index + count + 1 = index + 1 + count := by omega
    simp only [List.map_cons, List.zipIdx_cons, next, ih, read_movedBy]

/-- The segments of joined lists. -/
theorem segments_append {first : List UInt8} (ends : first.getLast? = some 0)
    (second : List UInt8) :
    segments (first ++ second) =
      segments first ++ (segments second).map fun segment => segment.movedBy first.length := by
  have seam := segmentsFrom_joined (.inr ends) 0 second
  rw [segmentsFrom_add] at seam
  exact seam

/-- The items of joined lists are those of the first and, behind them, those of the second. -/
theorem itemsOf_append {first : List UInt8} (ends : first.getLast? = some 0)
    (second : List UInt8) :
    itemsOf (first ++ second) =
      itemsOf first ++
        (itemsOf second).map (itemBehind first.length (itemsOf first).length) := by
  have behind := map_read_movedBy (segments second) 0 first.length (segments first).length
  rw [length_itemsOf, itemsOf, segments_append ends, List.zipIdx_append, List.map_append, behind]
  rfl

/-- A list is split into items, by this library and by a splitter on a machine. -/
structure SplitsInto (data : ByteArray) (items : List (Except Malformation ExportName)) : Prop where
  /-- The whole list at once. -/
  split : split data = .ok items
  /-- One item after the other, until there is none left. -/
  yields : ∃ splitter, Machine.Splitter.start data = .ok splitter ∧
    Machine.Drains Machine.Splitter.next splitter items

/-- A list that ends in a NUL byte is split into the items of its segments. -/
theorem splitsInto_itemsOf {data : ByteArray} (small : data.size < 2 ^ 63)
    (ends : data.data.back? = some 0) : SplitsInto data (itemsOf data.data.toList) where
  split := if_pos ends
  yields := by
    have valid : Machine.Splitter.Valid ⟨data, 0, 0⟩ :=
      ⟨small, Nat.zero_le _, Nat.le_refl _, ends⟩
    exact ⟨⟨data, 0, 0⟩, if_pos ends, (Machine.Splitter.drains_iff valid).mpr rfl⟩

end ExportNames

open ExportNames

/-! ### Registries of joined lists -/

/-- The registry holds the records of a first list with so many items, and behind them those of a
second one. -/
structure Registry.Joins (joined first second : Registry) (count : Nat) : Prop where
  /-- A name of the first list has the record that it has there. -/
  of_first : ∀ name record, first.get? name = some record → joined.get? name = some record
  /-- Any other name of the second list has the record that it has there, but for its value. -/
  of_second : ∀ name record, first.get? name = none → second.get? name = some record →
    ∃ value : UInt64, value.toNat = record.value.toNat + count ∧
      joined.get? name = some { record with value }
  /-- There are no other names. -/
  no_other : ∀ name, first.get? name = none → second.get? name = none → joined.get? name = none
  /-- Nothing is counted as marked. -/
  unmarked : joined.markCount = 0

namespace Registry.Lists

/-- The names that a registry lists are the names that it has. -/
theorem get?_eq_none_iff {registry : Registry} {names : List String}
    (lists : registry.Lists names) {name : String} :
    registry.get? name = none ↔ name ∉ names := by
  rw [lists.records]
  split <;> simp_all

/-- The registry of a joined list joins the registries of its parts. -/
theorem joins {first second joined : Registry} {names names' : List String}
    (lists : first.Lists names) (lists' : second.Lists names')
    (whole : joined.Lists (names ++ names')) (few : (names ++ names').length < addressCount) :
    joined.Joins first second names.length where
  of_first name record found := by
    have listed : name ∈ names := by
      by_contra absent
      rw [lists.get?_eq_none_iff.mpr absent] at found
      cases found
    rw [lists.records, if_pos listed] at found
    rw [whole.records, if_pos (List.mem_append_left _ listed), List.idxOf_append_of_mem listed,
      found]
  of_second name record absent found := by
    have unlisted : name ∉ names := lists.get?_eq_none_iff.mp absent
    rw [List.length_append] at few
    rw [lists'.records, listedRecord_eq_some_iff (by omega)] at found
    obtain ⟨listed, named, value, marked, link⟩ := found
    have index : (names ++ names').idxOf name = record.value.toNat + names.length := by
      rw [List.idxOf_append_of_notMem unlisted, value, Nat.add_comm]
    have before := List.idxOf_lt_length_of_mem listed
    have word : (UInt64.ofNat (record.value.toNat + names.length)).toNat =
        record.value.toNat + names.length :=
      UInt64.toNat_ofNat_of_lt' (by change _ < addressCount; omega)
    have all : joined.get? name = some { record with
        value := UInt64.ofNat (record.value.toNat + names.length) } := by
      rw [whole.records, if_pos (List.mem_append_right _ listed), index, ← named, ← marked, ← link]
    exact ⟨_, word, all⟩
  no_other name absent absent' := by
    have unlisted : name ∉ names ++ names' := by
      rw [List.mem_append, not_or]
      exact ⟨lists.get?_eq_none_iff.mp absent, lists'.get?_eq_none_iff.mp absent'⟩
    exact whole.get?_eq_none_iff.mpr unlisted
  unmarked := whole.unmarked

end Registry.Lists

namespace ExportNames

/-- Joined lists end like the second one. -/
theorem back?_append {first second : ByteArray} (ends : second.data.back? = some 0) :
    (first ++ second).data.back? = some 0 := by
  rw [ByteArray.data_append, Array.back?_append, ends]
  rfl

/-- Joined lists are parsed if each of them is. -/
theorem exists_parse_append {first second : ByteArray} (small : first.size + second.size < 2 ^ 63)
    {registry registry' : Registry} (parsed : parse first = .ok registry)
    (parsed' : parse second = .ok registry') :
    ∃ joined, parse (first ++ second) = .ok joined ∧
      joined.Joins registry registry' (itemsOf first.data.toList).length := by
  obtain ⟨ends, names, texts, lists⟩ := parse_eq_ok_iff.mp parsed
  obtain ⟨ends', names', texts', lists'⟩ := parse_eq_ok_iff.mp parsed'
  rw [← Array.getLast?_toList] at ends
  have all_texts : (segments (first ++ second).data.toList).map Segment.bytes =
      (names ++ names').map Utf8.encode := by
    rw [ByteArray.data_append, Array.toList_append, segments_append ends, List.map_append,
      List.map_map, texts, List.map_append, ← texts']
    rfl
  obtain ⟨joined, all, whole⟩ := exists_parse (back?_append ends') all_texts
  have few : (names ++ names').length < addressCount := by
    refine length_lt_of_texts all_texts (Nat.lt_trans ?_ (by decide : 2 ^ 63 < addressCount))
    rwa [ByteArray.size_append]
  have count : (itemsOf first.data.toList).length = names.length := by
    rw [length_itemsOf, ← List.length_map Segment.bytes, texts, List.length_map]
  exact ⟨joined, all, count ▸ lists.joins lists' whole few⟩

end ExportNames

/-- Two lists of exports that end in NUL bytes can be joined: the items of the whole are those of
the first list, and behind them those of the second one with indices that are greater by the number
of all items of the first list and positions that are greater by its size. If both lists are parsed,
so is the whole. Each name then has its record of the first list, and if it has none there, that of
the second list with a value that is greater by the same number. -/
theorem joined_lists_split (first second : ByteArray) (ends : first.data.back? = some 0)
    (ends' : second.data.back? = some 0) (small : first.size + second.size < 2 ^ 63) :
    ∃ items items', SplitsInto first items ∧ SplitsInto second items' ∧
      SplitsInto (first ++ second) (items ++ items'.map (itemBehind first.size items.length)) ∧
      ∀ registry registry', parse first = .ok registry → parse second = .ok registry' →
        ∃ joined, parse (first ++ second) = .ok joined ∧
          joined.Joins registry registry' items.length := by
  have split := splitsInto_itemsOf (Nat.lt_of_le_of_lt (Nat.le_add_right _ _) small) ends
  have split' := splitsInto_itemsOf (Nat.lt_of_le_of_lt (Nat.le_add_left _ _) small) ends'
  have whole : SplitsInto (first ++ second) (itemsOf (first ++ second).data.toList) :=
    splitsInto_itemsOf (by rwa [ByteArray.size_append]) (back?_append ends')
  rw [← Array.getLast?_toList] at ends
  rw [ByteArray.data_append, Array.toList_append, itemsOf_append ends, length_toList_data] at whole
  exact ⟨_, _, split, split', whole, fun _ _ => exists_parse_append small⟩

/-- A list with a name that is repeated, and padding at its end. -/
def repeatingPart : ByteArray :=
  ⟨#[0x61, 0, 0x4e, 0x53, 0, 0x61, 0, 0]⟩

/-- A list with padding at its start, and a name that the other one has as well. -/
def paddedPart : ByteArray :=
  ⟨#[0, 0x4e, 0x53, 0, 0x62, 0]⟩

/-- A list whose first name is no text. -/
def brokenPart : ByteArray :=
  ⟨#[0xff, 0, 0x62, 0]⟩

/-- The repetition counts for the names behind the seam, and a fault there says where it stands in
the whole. -/
theorem repeatingPart_joined :
    repeatingPart.data.back? = some 0 ∧ paddedPart.data.back? = some 0 ∧
    brokenPart.data.back? = some 0 ∧ repeatingPart.size + paddedPart.size < 2 ^ 63 ∧
    SplitsInto (repeatingPart ++ brokenPart) [.ok ⟨"a", 0⟩, .ok ⟨"NS", 1⟩, .ok ⟨"a", 2⟩,
      .error (.exportNameEncoding 8 (.malformed 0 1)), .ok ⟨"b", 4⟩] ∧
    ∃ joined, parse (repeatingPart ++ paddedPart) = .ok joined ∧
      joined.get? "NS" = some ⟨"NS", 1, false, none⟩ ∧
      joined.get? "b" = some ⟨"b", 4, false, none⟩ := by
  have ends : repeatingPart.data.back? = some 0 := by decide +kernel
  have ends' : paddedPart.data.back? = some 0 := by decide +kernel
  have ends_broken : brokenPart.data.back? = some 0 := by decide +kernel
  have small : repeatingPart.size + paddedPart.size < 2 ^ 63 := by decide +kernel
  have small_broken : repeatingPart.size + brokenPart.size < 2 ^ 63 := by decide +kernel
  have items : split repeatingPart = .ok [.ok ⟨"a", 0⟩, .ok ⟨"NS", 1⟩, .ok ⟨"a", 2⟩] := by
    decide +kernel
  have items_broken : split brokenPart =
      .ok [.error (.exportNameEncoding 0 (.malformed 0 1)), .ok ⟨"b", 1⟩] := by decide +kernel
  obtain ⟨given, given', first, second, whole, -⟩ :=
    joined_lists_split repeatingPart brokenPart ends ends_broken small_broken
  cases items.symm.trans first.split
  cases items_broken.symm.trans second.split
  obtain ⟨given, given', first, -, -, parses⟩ :=
    joined_lists_split repeatingPart paddedPart ends ends' small
  cases items.symm.trans first.split
  have texts : (segments repeatingPart.data.toList).map Segment.bytes =
      ["a", "NS", "a"].map Utf8.encode := by decide +kernel
  have texts' : (segments paddedPart.data.toList).map Segment.bytes =
      ["NS", "b"].map Utf8.encode := by decide +kernel
  obtain ⟨registry, parsed, lists⟩ := exists_parse ends texts
  obtain ⟨registry', parsed', lists'⟩ := exists_parse ends' texts'
  obtain ⟨joined, all, joins⟩ := parses registry registry' parsed parsed'
  have namespace_record := joins.of_first "NS" _ (lists.records "NS")
  obtain ⟨value, four, last_record⟩ := joins.of_second "b" _ (lists.records "b")
    (lists'.records "b")
  cases UInt64.toNat_inj.mp (four.trans (by decide : _ = (4 : UInt64).toNat))
  exact ⟨ends, ends', ends_broken, small, whole, joined, all, namespace_record, last_record⟩

end KernelExports
