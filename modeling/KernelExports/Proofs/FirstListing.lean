import KernelExports.Proofs.ExtractionLaws
import KernelExports.Proofs.SplitterItems

/-!
# The first listing of each name

A list of exports is refused if it does not end in a NUL byte, and otherwise because of the first
segment that is no text. If there is none, the registry has one record for each different segment.
Its value is the number of segments before the first one with these bytes, where repeated names
count as well, so no two records have the same value.
-/

namespace KernelExports

open ExportNames

namespace Registry

/-- The registry has a record for the first segment with each name, and for nothing else. -/
structure HoldsEachFirst (registry : Registry) (segments : List Segment) : Prop where
  /-- There is a record of a name exactly if its bytes are a segment. -/
  contains_iff : ∀ name, registry.contains name = true ↔
    ∃ segment ∈ segments, segment.bytes = Utf8.encode name
  /-- Records are unmarked and have no link, and their values count the segments before the first
  one with the bytes of their names. -/
  holds : registry.HoldsFirst segments
  /-- There are as many records as different segments. -/
  size : registry.size = (segments.map Segment.bytes).toFinset.card
  /-- No two records have the same value. -/
  apart : ∀ first second record record', registry.get? first = some record →
    registry.get? second = some record' → record.value = record'.value → first = second

namespace Lists

variable {registry : Registry} {names : List String} (lists : registry.Lists names)

include lists

/-- The registry has the listed names and no others. -/
theorem contains_iff {name : String} : registry.contains name = true ↔ name ∈ names := by
  rw [contains, lists.records]
  split <;> simp_all

/-- The names of the records are the different names of the list. -/
theorem size_eq (named : "" ∉ names) : registry.size = names.toFinset.card := by
  have wellFormed := lists.wellFormed named
  have same : (registry.toList.map Record.name).toFinset = names.toFinset := by
    ext name
    rw [List.mem_toFinset, List.mem_toFinset, ← lists.contains_iff, contains,
      Option.isSome_iff_exists, List.mem_map]
    constructor
    · rintro ⟨record, listed, rfl⟩
      exact ⟨record, wellFormed.mem_toList_iff.mp listed⟩
    · rintro ⟨record, found⟩
      have own := wellFormed.own_name name record found
      exact ⟨record, wellFormed.mem_toList_iff.mpr (own ▸ found), own⟩
  rw [← same, List.toFinset_card_of_nodup wellFormed.consistent.distinct, List.length_map,
    length_toList]

/-- A list has one name at an index, so the value of a record gives away its name. -/
theorem eq_of_value (few : names.length < addressCount) {first second : String}
    {record record' : Record} (found : registry.get? first = some record)
    (found' : registry.get? second = some record') (same : record.value = record'.value) :
    first = second := by
  rw [lists.records, listedRecord_eq_some_iff few] at found found'
  obtain ⟨listed, -, value, -, -⟩ := found
  obtain ⟨-, -, value', -, -⟩ := found'
  rw [← List.idxOf_inj listed, ← value, ← value', same]

end Lists

end Registry

/-- What some elements of a list have, a first one has. -/
theorem exists_first {α : Type} {has : α → Prop} {list : List α} (some_has : ∃ x ∈ list, has x) :
    ∃ before first after, list = before ++ first :: after ∧ has first ∧
      ∀ x ∈ before, ¬ has x := by
  classical
  obtain ⟨first, found⟩ : ∃ first, list.find? (fun x => decide (has x)) = some first := by
    rw [← Option.isSome_iff_exists, List.find?_isSome]
    simpa using some_has
  obtain ⟨hit, before, after, place, misses⟩ := List.find?_eq_some_iff_append.mp found
  exact ⟨before, first, after, place, by simpa using hit, by simpa using misses⟩

namespace ExportNames

/-- Items that can be entered are entered before what follows them. -/
theorem enterAll_append {registry extended : Registry}
    {items : List (Except Malformation ExportName)}
    (entered : enterAll registry items = .ok extended)
    (rest : List (Except Malformation ExportName)) :
    enterAll registry (items ++ rest) = enterAll extended rest := by
  induction items generalizing registry with
  | nil =>
    cases entered
    rfl
  | cons item items ih =>
    cases item with
    | error fault => cases entered
    | ok item =>
      rw [enterAll] at entered
      rw [List.cons_append, enterAll]
      cases added : enter registry item with
      | error error =>
        rw [added] at entered
        cases entered
      | ok next =>
        rw [added] at entered
        exact ih entered

/-- The first segment that is no text is the reason why a list is refused. -/
theorem parse_of_not_isText {data : ByteArray} (ends : data.data.back? = some 0)
    {before after : List Segment} {bad : Segment}
    (place : segments data.data.toList = before ++ bad :: after)
    (texts : ∀ segment ∈ before, segment.IsText) (no_text : ¬ bad.IsText) :
    ∃ fault, bad.Gives before.length (.error fault) ∧ parse data = .error (.malformed fault) := by
  obtain ⟨names, spelled⟩ := exists_names texts
  have nonempty : ∀ segment ∈ before, segment.bytes ≠ [] := by
    intro segment listed
    have found : segment ∈ segments data.data.toList := by
      rw [place]
      exact List.mem_append_left _ listed
    exact bytes_ne_nil found
  obtain ⟨registry, entered, -⟩ :=
    enterAll_lists Registry.lists_empty (empty_notMem_of_texts nonempty spelled)
  rw [List.length_nil] at entered
  obtain ⟨defect, undecoded⟩ := Segment.not_isText_iff.mp no_text
  have item : bad.read before.length = .error (.exportNameEncoding bad.offset defect) := by
    rw [Segment.read, undecoded]
  have failed : parse data = .error (.malformed (.exportNameEncoding bad.offset defect)) := by
    rw [parse, split, if_pos ends]
    dsimp only
    rw [place, List.zipIdx_append, List.map_append, map_read_eq_numberedFrom spelled,
      enterAll_append entered, List.zipIdx_cons, List.map_cons]
    dsimp only
    rw [Nat.zero_add, item]
    rfl
  exact ⟨_, item ▸ bad.gives_read before.length, failed⟩

/-- What is parsed has a record for the first segment with each name. -/
theorem holdsEachFirst_of_lists {registry : Registry} {segments : List Segment}
    {names : List String} (lists : registry.Lists names)
    (texts : segments.map Segment.bytes = names.map Utf8.encode)
    (nonempty : ∀ segment ∈ segments, segment.bytes ≠ []) (few : segments.length < addressCount) :
    registry.HoldsEachFirst segments where
  contains_iff name := by
    rw [lists.contains_iff, ← List.mem_map, texts,
      List.mem_map_of_injective fun _ _ => Utf8.encode_inj.mp]
  holds := (lists_iff_holdsFirst texts few).mp lists
  size := by
    rw [texts, lists.size_eq (empty_notMem_of_texts nonempty texts), List.card_toFinset,
      List.card_toFinset, List.dedup_map_of_injective fun _ _ => Utf8.encode_inj.mp,
      List.length_map]
  apart first second record record' found found' same := by
    have length := congrArg List.length texts
    rw [List.length_map, List.length_map] at length
    exact lists.eq_of_value (length ▸ few) found found' same

end ExportNames

/-- A list of exports is parsed exactly if it ends in a NUL byte and all its segments, the maximal
runs of bytes other than NUL, are texts. The registry then has a record for the first segment with
each name. If some segments are no texts, the error is that of the first of them, which says where
it starts. -/
theorem parse_first_listings (data : ByteArray) (small : data.size < 2 ^ 63) :
    ∃ segments, InOrder data.data.toList segments ∧
      ((∃ fault, parse data = .error (.malformed fault)) ↔
        Unterminated data ∨ ∃ segment ∈ segments, ¬ segment.IsText) ∧
      (Unterminated data → parse data = .error (.malformed .exportsUnterminated)) ∧
      (¬ Unterminated data → ∀ before bad after, segments = before ++ bad :: after →
        (∀ segment ∈ before, segment.IsText) → ¬ bad.IsText →
          ∃ fault, bad.Gives before.length (.error fault) ∧
            parse data = .error (.malformed fault)) ∧
      (¬ Unterminated data → (∀ segment ∈ segments, segment.IsText) →
        ∃ registry, parse data = .ok registry ∧ registry.HoldsEachFirst segments) := by
  have unterminated : Unterminated data →
      parse data = .error (.malformed .exportsUnterminated) := by
    intro refused
    rw [parse, split, if_neg (unterminated_iff.mp refused)]
  have first_bad : ¬ Unterminated data → ∀ before bad after,
      segments data.data.toList = before ++ bad :: after →
        (∀ segment ∈ before, segment.IsText) → ¬ bad.IsText →
          ∃ fault, bad.Gives before.length (.error fault) ∧
            parse data = .error (.malformed fault) := by
    intro accepted before bad after place texts no_text
    rw [unterminated_iff, not_not] at accepted
    exact parse_of_not_isText accepted place texts no_text
  have all_texts : ¬ Unterminated data →
      (∀ segment ∈ segments data.data.toList, segment.IsText) →
        ∃ registry, parse data = .ok registry ∧
          registry.HoldsEachFirst (segments data.data.toList) := by
    intro accepted texts
    rw [unterminated_iff, not_not] at accepted
    obtain ⟨names, spelled⟩ := exists_names texts
    obtain ⟨registry, parsed, lists⟩ := exists_parse accepted spelled
    have few : (segmentsFrom 0 data.data.toList).length ≤ _ := length_segmentsFrom_le 0 _
    rw [length_toList_data] at few
    have fits : (segments data.data.toList).length < addressCount :=
      Nat.lt_of_le_of_lt few (Nat.lt_trans small (by decide))
    exact ⟨registry, parsed, holdsEachFirst_of_lists lists spelled (fun _ => bytes_ne_nil) fits⟩
  refine ⟨_, segments_inOrder _, ⟨fun failed => ?_, fun reason => ?_⟩, unterminated, first_bad,
    all_texts⟩
  · by_contra no_reason
    simp only [not_or, not_exists, not_and, not_not] at no_reason
    obtain ⟨registry, parsed, -⟩ := all_texts no_reason.1 no_reason.2
    obtain ⟨fault, failed⟩ := failed
    rw [parsed] at failed
    cases failed
  · by_cases refused : Unterminated data
    · exact ⟨_, unterminated refused⟩
    · obtain ⟨before, bad, after, place, no_text, texts⟩ :=
        exists_first (reason.resolve_left refused)
      obtain ⟨fault, -, failed⟩ := first_bad refused before bad after place
        (fun segment listed => not_not.mp (texts segment listed)) no_text
      exact ⟨fault, failed⟩

/-- Three names, and a namespace that is listed twice. -/
def listWithNamespace : ByteArray :=
  ⟨#[0x61, 0, 0x4e, 0x53, 0, 0x62, 0, 0x4e, 0x53, 0, 0x63, 0]⟩

/-- The second listing of the namespace takes up an index and no record. -/
theorem parse_listWithNamespace :
    listWithNamespace.size < 2 ^ 63 ∧
    ∃ registry, parse listWithNamespace = .ok registry ∧ registry.size = 4 ∧
      registry.get? "NS" = some ⟨"NS", 1, false, none⟩ ∧
      registry.get? "c" = some ⟨"c", 4, false, none⟩ := by
  have small : listWithNamespace.size < 2 ^ 63 := by decide +kernel
  obtain ⟨segments, order, -, -, -, accepted⟩ := parse_first_listings listWithNamespace small
  have found : segments = [⟨0, [0x61]⟩, ⟨2, [0x4e, 0x53]⟩, ⟨5, [0x62]⟩, ⟨7, [0x4e, 0x53]⟩,
      ⟨10, [0x63]⟩] := by
    rw [inOrder_iff.mp order]
    decide +kernel
  have texts : ∀ segment ∈ segments, segment.IsText := by
    rw [found]
    simp only [List.forall_mem_cons]
    exact ⟨⟨"a", rfl⟩, ⟨"NS", rfl⟩, ⟨"b", rfl⟩, ⟨"NS", rfl⟩, ⟨"c", rfl⟩, List.forall_mem_nil _⟩
  have ends : ¬ Unterminated listWithNamespace := by
    rw [unterminated_iff, not_not]
    decide +kernel
  obtain ⟨registry, parsed, first⟩ := accepted ends texts
  rw [found] at first
  have namespace_record : registry.get? "NS" = some ⟨"NS", 1, false, none⟩ :=
    (first.holds.record_iff _ _).mpr
      ⟨⟨_, List.mem_of_getElem? (i := 1) rfl, rfl⟩, rfl, by decide +kernel, rfl, rfl⟩
  have last_record : registry.get? "c" = some ⟨"c", 4, false, none⟩ :=
    (first.holds.record_iff _ _).mpr
      ⟨⟨_, List.mem_of_getElem? (i := 4) rfl, rfl⟩, rfl, by decide +kernel, rfl, rfl⟩
  exact ⟨small, registry, parsed, first.size, namespace_record, last_record⟩

end KernelExports
