import KernelExports.Proofs.Segments
import KernelExports.Proofs.RegistryRuns

/-!
# From the list of names to the registry

A registry lists names if it holds each of them once, unmarked and without a link, under the index
of its first listing. The registry of a list of exported names is the one that lists the texts of
its segments, and there is none exactly if a segment is not text or the last byte is not NUL.
-/

namespace KernelExports

/-- The registry holds the names of a list, each with the index of its first place there. -/
structure Registry.Lists (registry : Registry) (names : List String) : Prop where
  /-- One record for each name of the list, and no others. -/
  records : ∀ name, registry.get? name =
    if name ∈ names then some ⟨name, UInt64.ofNat (names.idxOf name), false, none⟩ else none
  /-- Nothing is counted as marked. -/
  unmarked : registry.markCount = 0

/-- As long as its index fits into a word, the record of a listed name is known field by field. -/
theorem listedRecord_eq_some_iff {names : List String} (few : names.length < addressCount)
    {name : String} {record : Record} :
    (if name ∈ names then
      some (⟨name, UInt64.ofNat (names.idxOf name), false, none⟩ : Record) else none) =
        some record ↔
      name ∈ names ∧ record.name = name ∧ record.value.toNat = names.idxOf name ∧
        record.marked = false ∧ record.link = none := by
  obtain ⟨name', value, marked, link⟩ := record
  by_cases listed : name ∈ names
  · have fits : names.idxOf name < UInt64.size :=
      Nat.lt_trans (List.idxOf_lt_length_of_mem listed) few
    rw [if_pos listed, Option.some_inj, Record.mk.injEq, ← UInt64.toNat_inj,
      UInt64.toNat_ofNat_of_lt' fits]
    simp only [listed, true_and, eq_comm]
  · simp [listed]

/-- There is one registry for a list of names. -/
theorem Registry.Lists.unique {first second : Registry} {names : List String}
    (h : first.Lists names) (h' : second.Lists names) : first = second := by
  refine ext_get? (fun name => ?_) (h.unmarked.trans h'.unmarked.symm)
  rw [h.records, h'.records]

/-- The empty registry lists no names. -/
theorem Registry.lists_empty : Registry.empty.Lists [] where
  records name := by simp
  unmarked := rfl

/-- No record of a registry that lists names is marked. -/
theorem Registry.Lists.marked_eq_false {registry : Registry} {names : List String}
    (h : registry.Lists names) {name : String} {record : Record}
    (found : registry.get? name = some record) : record.marked = false := by
  rw [h.records] at found
  split at found
  · cases found
    rfl
  · cases found

/-- So the count of marks is right. -/
theorem Registry.Lists.counted {registry : Registry} {names : List String}
    (h : registry.Lists names) : registry.Counted := by
  rw [Counted, h.unmarked, countMarked_eq, eq_comm, List.countP_eq_zero]
  intro entry member
  obtain ⟨name, record⟩ := entry
  have found : registry.get? name = some record :=
    Std.ExtTreeMap.mem_toList_iff_getElem?_eq_some.mp member
  simp [h.marked_eq_false found]

/-- No name that is listed is empty, so the registry is one that changes can be made to. -/
theorem Registry.Lists.wellFormed {registry : Registry} {names : List String}
    (h : registry.Lists names) (named : "" ∉ names) : registry.WellFormed where
  counted := h.counted
  own_name name record found := by
    rw [h.records] at found
    split at found
    · cases found
      rfl
    · cases found
  named := by rw [h.records, if_neg named]

/-- Listing a name again changes nothing. -/
theorem Registry.Lists.append_repeated {registry : Registry} {done : List String}
    (h : registry.Lists done) {name : String} (repeated : name ∈ done) :
    registry.Lists (done ++ [name]) where
  records other := by
    rw [h.records]
    by_cases member : other ∈ done
    · rw [if_pos member, if_pos (List.mem_append_left _ member), List.idxOf_append_of_mem member]
    · have different : other ≠ name := fun same => member (same ▸ repeated)
      have absent : other ∉ done ++ [name] := by simp [member, different]
      rw [if_neg member, if_neg absent]
  unmarked := h.unmarked

/-- A new name gets the next index. -/
theorem Registry.Lists.append_new {registry extended : Registry} {done : List String}
    (h : registry.Lists done) {name : String} (fresh : name ∉ done)
    (records : ∀ other, extended.get? other =
      if other = name then some ⟨name, UInt64.ofNat done.length, false, none⟩
      else registry.get? other)
    (count : extended.markCount = registry.markCount) : extended.Lists (done ++ [name]) where
  records other := by
    rw [records, h.records]
    by_cases same : other = name
    · have listed : other ∈ done ++ [name] := by simp [same]
      rw [if_pos same, if_pos listed, same, List.idxOf_append_of_notMem fresh]
      simp
    · rw [if_neg same]
      by_cases member : other ∈ done
      · rw [if_pos member, if_pos (List.mem_append_left _ member),
          List.idxOf_append_of_mem member]
      · have absent : other ∉ done ++ [name] := by simp [member, same]
        rw [if_neg member, if_neg absent]
  unmarked := count.trans h.unmarked

namespace ExportNames

open Registry

/-- One more name: a new one gets the next index, a repeated one changes nothing. -/
theorem enter_lists {registry : Registry} {done : List String} (h : registry.Lists done)
    {name : String} (named : name ≠ "") :
    ∃ extended, enter registry ⟨name, done.length⟩ = .ok extended ∧
      extended.Lists (done ++ [name]) := by
  have taken := h.records name
  rw [enter, Registry.insert]
  by_cases repeated : name ∈ done
  · rw [if_pos repeated] at taken
    rw [insertCopy_duplicate named taken]
    exact ⟨registry, rfl, h.append_repeated repeated⟩
  · rw [if_neg repeated] at taken
    cases added : registry.insertCopy ⟨name, UInt64.ofNat done.length, false, none⟩ with
    | error error => simp [insertCopy, contains, named, taken] at added
    | ok extended =>
      obtain ⟨-, -, records, count⟩ := insertCopy_eq_ok_iff.mp added
      exact ⟨extended, rfl, h.append_new repeated records count⟩

/-- Names that are listed one after the other, the first of them under the given index. -/
def numberedFrom (index : Nat) (names : List String) : List (Except Malformation ExportName) :=
  (names.zipIdx index).map fun (name, index) => .ok ⟨name, index⟩

/-- Any number of further names. -/
theorem enterAll_lists {registry : Registry} {done : List String} (h : registry.Lists done)
    {names : List String} (named : "" ∉ names) :
    ∃ extended, enterAll registry (numberedFrom done.length names) = .ok extended ∧
      extended.Lists (done ++ names) := by
  induction names generalizing registry done with
  | nil => exact ⟨registry, rfl, by rwa [List.append_nil]⟩
  | cons name rest ih =>
    rw [List.mem_cons, not_or] at named
    obtain ⟨next, entered, lists⟩ := enter_lists h (Ne.symm named.1)
    obtain ⟨extended, others, whole⟩ := ih lists named.2
    rw [List.append_assoc] at whole
    rw [List.length_append, List.length_singleton] at others
    have all : enterAll registry (numberedFrom done.length (name :: rest)) = .ok extended := by
      rw [numberedFrom, List.zipIdx_cons, List.map_cons, enterAll, entered]
      exact others
    exact ⟨extended, all, whole⟩

/-- A name that is not text ends the parsing. -/
theorem ok_of_enterAll_ok {registry extended : Registry}
    {items : List (Except Malformation ExportName)} (h : enterAll registry items = .ok extended) :
    ∀ item ∈ items, ∃ name, item = .ok name := by
  induction items generalizing registry with
  | nil => simp
  | cons item rest ih =>
    cases item with
    | error fault => cases h
    | ok name =>
      rw [enterAll] at h
      split at h
      · exact List.forall_mem_cons.mpr ⟨⟨name, rfl⟩, ih h⟩
      · cases h

/-- A segment is read as a name exactly if the name spells its bytes. -/
theorem read_eq_ok_iff {segment : Segment} {index : Nat} {item : ExportName} :
    segment.read index = .ok item ↔ item.index = index ∧ Utf8.encode item.name = segment.bytes := by
  obtain ⟨name, place⟩ := item
  rw [← Utf8.decode_eq_ok_iff, Segment.read]
  cases Utf8.decode segment.bytes with
  | ok text =>
    simp only [Except.ok.injEq, ExportName.mk.injEq]
    exact ⟨fun ⟨same, place⟩ => ⟨place.symm, same⟩, fun ⟨place, same⟩ => ⟨same, place.symm⟩⟩
  | error defect => simp

/-- Segments that are text are read in order. -/
theorem map_read_eq_numberedFrom {found : List Segment} {names : List String}
    (texts : found.map Segment.bytes = names.map Utf8.encode) (index : Nat) :
    (found.zipIdx index).map (fun (segment, index) => segment.read index) =
      numberedFrom index names := by
  induction found generalizing names index with
  | nil =>
    rw [List.map_nil, eq_comm, List.map_eq_nil_iff] at texts
    rw [texts]
    rfl
  | cons segment rest ih =>
    cases names with
    | nil => cases texts
    | cons name names =>
      obtain ⟨text, texts⟩ := List.cons.inj texts
      have head : segment.read index = .ok ⟨name, index⟩ := read_eq_ok_iff.mpr ⟨rfl, text.symm⟩
      rw [List.zipIdx_cons, List.map_cons, ih texts]
      dsimp only
      rw [head]
      rfl

/-- Segments that are all text spell names. -/
theorem exists_names {found : List Segment}
    (texts : ∀ segment ∈ found, ∃ name, Utf8.encode name = segment.bytes) :
    ∃ names : List String, found.map Segment.bytes = names.map Utf8.encode := by
  induction found with
  | nil => exact ⟨[], rfl⟩
  | cons segment rest ih =>
    obtain ⟨⟨name, text⟩, others⟩ := List.forall_mem_cons.mp texts
    obtain ⟨names, rest_texts⟩ := ih others
    have all : (segment :: rest).map Segment.bytes = (name :: names).map Utf8.encode := by
      rw [List.map_cons, List.map_cons, text, rest_texts]
    exact ⟨name :: names, all⟩

/-- Segments spell no empty name. -/
theorem empty_notMem_of_texts {found : List Segment}
    (nonempty : ∀ segment ∈ found, segment.bytes ≠ []) {names : List String}
    (texts : found.map Segment.bytes = names.map Utf8.encode) : "" ∉ names := by
  intro member
  have listed := List.mem_map_of_mem (f := Utf8.encode) member
  rw [← texts, Utf8.encode_empty] at listed
  obtain ⟨segment, found, empty⟩ := List.mem_map.mp listed
  exact nonempty segment found empty

/-- A list has fewer names than bytes. -/
theorem length_lt_of_texts {data : ByteArray} {names : List String}
    (texts : (segments data.data.toList).map Segment.bytes = names.map Utf8.encode)
    (small : data.size < addressCount) : names.length < addressCount := by
  have bound : (segmentsFrom 0 data.data.toList).length ≤ _ := length_segmentsFrom_le 0 _
  have length := congrArg List.length texts
  rw [List.length_map, List.length_map] at length
  rw [length_toList_data] at bound
  exact length ▸ Nat.lt_of_le_of_lt bound small

/-- A list that ends in a NUL byte and whose segments are texts is parsed. -/
theorem exists_parse {data : ByteArray} (ends : data.data.back? = some 0) {names : List String}
    (texts : (segments data.data.toList).map Segment.bytes = names.map Utf8.encode) :
    ∃ registry, parse data = .ok registry ∧ registry.Lists names := by
  obtain ⟨registry, entered, lists⟩ :=
    enterAll_lists Registry.lists_empty (empty_notMem_of_texts (fun _ => bytes_ne_nil) texts)
  have parsed : parse data = .ok registry := by
    rw [parse, split, if_pos ends]
    dsimp only
    rw [map_read_eq_numberedFrom texts]
    exact entered
  exact ⟨registry, parsed, lists⟩

/-- The parsed registry lists the texts of the segments, all of which have to be text. -/
theorem parse_eq_ok_iff {data : ByteArray} {registry : Registry} :
    parse data = .ok registry ↔
      data.data.back? = some 0 ∧
        ∃ names, (segments data.data.toList).map Segment.bytes = names.map Utf8.encode ∧
          registry.Lists names := by
  constructor
  · intro h
    by_cases ends : data.data.back? = some 0
    · have items := h
      rw [parse, split, if_pos ends] at items
      dsimp only at items
      have texts : ∀ segment ∈ segments data.data.toList,
          ∃ name, Utf8.encode name = segment.bytes := by
        intro segment member
        obtain ⟨index, place⟩ := List.mem_iff_getElem?.mp member
        have listed := List.mk_mem_zipIdx_iff_getElem?.mpr place
        obtain ⟨item, read⟩ := ok_of_enterAll_ok items _ (List.mem_map_of_mem listed)
        exact ⟨item.name, (read_eq_ok_iff.mp read).2⟩
      obtain ⟨names, texts⟩ := exists_names texts
      obtain ⟨listed, parsed, lists⟩ := exists_parse ends texts
      cases h.symm.trans parsed
      exact ⟨ends, names, texts, lists⟩
    · rw [parse, split, if_neg ends] at h
      cases h
  · intro h
    obtain ⟨ends, names, texts, lists⟩ := h
    obtain ⟨listed, parsed, lists'⟩ := exists_parse ends texts
    rw [parsed, lists'.unique lists]

/-- A registry that a list of exports is parsed to is well formed. -/
theorem wellFormed_of_parse {data : ByteArray} {registry : Registry}
    (parsed : parse data = .ok registry) : registry.WellFormed := by
  obtain ⟨-, names, texts, lists⟩ := parse_eq_ok_iff.mp parsed
  exact lists.wellFormed (empty_notMem_of_texts (fun _ => bytes_ne_nil) texts)

end ExportNames

end KernelExports
