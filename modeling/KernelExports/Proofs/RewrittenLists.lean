import KernelExports.Proofs.JoinedLists
import KernelExports.Proofs.ReportOrder

/-!
# Lists of exports that are written anew

The names of a registry can be written as a list of exports, in the order of their values. If the
registry is that of a list, the new list has the same names in the same order. No name is repeated
in it, so its indices leave no gaps, and writing its registry changes nothing any more. The indices
are those of the old list exactly if there no new name comes behind a repeated one.
-/

namespace KernelExports

open ExportNames Record

/-! ### Elements that come again -/

/-- An element comes again, and behind it another one comes for the first time. -/
def RepeatsBeforeNew {α : Type} (list : List α) : Prop :=
  ∃ before again between new after, list = before ++ again :: between ++ new :: after ∧
    again ∈ before ∧ new ∉ before ++ again :: between

/-- In a list with a repetition, an element comes again. -/
theorem exists_again {α : Type} {list : List α} (repeats : ¬ list.Nodup) :
    ∃ before again between, list = before ++ again :: between ∧ again ∈ before := by
  induction list using List.reverseRecOn with
  | nil => exact absurd List.nodup_nil repeats
  | append_singleton list last ih =>
    by_cases listed : last ∈ list
    · exact ⟨list, last, [], rfl, listed⟩
    · have repeats_before : ¬ list.Nodup := fun nodup =>
        repeats (List.concat_eq_append ▸ nodup.concat listed)
      obtain ⟨before, again, between, rfl, repeated⟩ := ih repeats_before
      exact ⟨before, again, between ++ [last], List.append_assoc _ _ _, repeated⟩

/-- A list in which an element comes again has a repetition. -/
theorem not_nodup_of_again {α : Type} {before between : List α} {again : α}
    (listed : again ∈ before) : ¬ (before ++ again :: between).Nodup := fun nodup =>
  (List.nodup_append.mp nodup).2.2 again listed again List.mem_cons_self rfl

/-- Leaving out later copies keeps the order. -/
theorem eraseDups_sublist (names : List String) : names.eraseDups.Sublist names := by
  induction names using List.reverseRecOn with
  | nil => exact .slnil
  | append_singleton before name ih =>
    rw [eraseDups_concat]
    split
    · exact ih.trans (List.sublist_append_left before [name])
    · exact ih.append (List.Sublist.refl [name])

/-- Nothing is erased exactly if nothing is repeated. -/
theorem length_eraseDups_eq_iff {names : List String} :
    names.eraseDups.length = names.length ↔ names.Nodup := by
  constructor
  · intro length
    exact (eraseDups_sublist names).eq_of_length length ▸ nodup_eraseDups names
  · intro nodup
    have subset : names ⊆ names.eraseDups := fun name listed => List.mem_eraseDups.mpr listed
    exact Nat.le_antisymm (eraseDups_sublist names).length_le (nodup.length_le_of_subset subset)

/-- Without repetitions nothing is left out. -/
theorem eraseDups_of_nodup {names : List String} (nodup : names.Nodup) : names.eraseDups = names :=
  (eraseDups_sublist names).eq_of_length (length_eraseDups_eq_iff.mpr nodup)

/-- Among the different names, a name has as many before it as there are different ones before its
first place. -/
theorem idxOf_eraseDups {front after : List String} {name : String} (fresh : name ∉ front) :
    (front ++ name :: after).eraseDups.idxOf name = front.eraseDups.length := by
  have fresh' : name ∉ front.eraseDups := fun listed => fresh (List.mem_eraseDups.mp listed)
  have split : front ++ name :: after = front ++ [name] ++ after := by simp
  rw [split, List.eraseDups_append, eraseDups_concat, if_neg fresh, List.append_assoc,
    List.idxOf_append_of_notMem fresh', List.singleton_append, List.idxOf_cons_self, Nat.add_zero]

/-- The different names keep their indices exactly if no new one comes behind a repeated one. -/
theorem idxOf_eraseDups_eq_iff {names : List String} :
    (∀ name ∈ names, names.eraseDups.idxOf name = names.idxOf name) ↔
      ¬ RepeatsBeforeNew names := by
  have index : ∀ front name (after : List String), name ∉ front →
      (front ++ name :: after).idxOf name = front.length := by
    intro front name after fresh
    rw [List.idxOf_append_of_notMem fresh, List.idxOf_cons_self, Nat.add_zero]
  constructor
  · rintro same ⟨before, again, between, new, after, rfl, listed, fresh⟩
    have kept := same new (List.mem_append_right _ List.mem_cons_self)
    rw [idxOf_eraseDups fresh, index _ _ _ fresh, length_eraseDups_eq_iff] at kept
    exact not_nodup_of_again listed kept
  · intro in_order name listed
    obtain ⟨front, after, rfl, fresh⟩ := List.eq_append_cons_of_mem listed
    rw [idxOf_eraseDups fresh, index _ _ _ fresh, length_eraseDups_eq_iff]
    by_contra repeats
    obtain ⟨before, again, between, rfl, repeated⟩ := exists_again repeats
    exact in_order ⟨before, again, between, name, after, rfl, repeated, fresh⟩

/-- Without repetitions the first places are all places. -/
theorem map_idxOf_of_nodup {names : List String} (nodup : names.Nodup) :
    names.map (fun name => names.idxOf name) = List.range names.length := by
  refine List.ext_getElem (by simp) fun index before _ => ?_
  rw [List.getElem_map, List.getElem_range, nodup.idxOf_getElem]

/-! ### The list that is written -/

namespace ExportNames

/-- A segment and its NUL byte take up room in a closed sequence. -/
theorem sum_segmentsFrom_le {bytes : List UInt8} (closed : Closed bytes) (position : Nat) :
    ((segmentsFrom position bytes).map fun segment => segment.bytes.length + 1).sum ≤
      bytes.length := by
  induction closed using closed_induction generalizing position with
  | nil =>
    rw [segmentsFrom_of_free List.not_mem_nil]
    rfl
  | cut run rest free _ ih =>
    have first : ((segmentOf position run).map fun segment => segment.bytes.length + 1).sum ≤
        run.length + 1 := by
      cases run <;> simp [segmentOf]
    have others := ih (position + run.length + 1)
    rw [segmentsFrom_append free, List.map_append, List.sum_append, List.length_append,
      List.length_cons]
    omega

/-- There is no NUL byte in a name that a segment spells. -/
theorem zero_notMem_of_texts {bytes : List UInt8} {names : List String}
    (texts : (segments bytes).map Segment.bytes = names.map Utf8.encode) :
    ∀ name ∈ names, 0 ∉ Utf8.encode name := by
  intro name listed
  have spelled := List.mem_map_of_mem (f := Utf8.encode) listed
  rw [← texts] at spelled
  obtain ⟨segment, found, same⟩ := List.mem_map.mp spelled
  rw [← same]
  exact (((segments_inOrder bytes).mem_iff segment).mp found).2.1

/-- The names that a list has take up no more room than the list. -/
theorem length_flatMap_terminated_le {bytes : List UInt8} (closed : Closed bytes)
    {names : List String} (texts : (segments bytes).map Segment.bytes = names.map Utf8.encode) :
    (names.flatMap terminated).length ≤ bytes.length := by
  have room := sum_segmentsFrom_le closed 0
  have lengths := congrArg (List.map fun bytes => List.length bytes + 1) texts
  rw [List.map_map, List.map_map] at lengths
  have written : (names.map fun name => (terminated name).length) =
      names.map ((fun bytes => List.length bytes + 1) ∘ Utf8.encode) :=
    List.map_congr_left fun name _ => List.length_append
  rw [List.length_flatMap, written, ← lengths]
  exact room

/-- A NUL byte behind written names changes nothing. -/
theorem map_bytes_segments_closed {names : List String} (named : "" ∉ names)
    (free : ∀ name ∈ names, 0 ∉ Utf8.encode name) :
    (segments (names.flatMap terminated ++ [0])).map Segment.bytes = names.map Utf8.encode := by
  have closed : Closed (names.flatMap terminated) := by
    cases names with
    | nil => exact .inl rfl
    | cons name rest => exact .inr (getLast?_flatMap_terminated (List.cons_ne_nil name rest))
  have nothing : ∀ position, segmentsFrom position [0] = [] := fun position => rfl
  have split := segmentsFrom_joined closed 0 [0]
  rw [nothing, List.append_nil] at split
  rw [segments, ← segmentsFrom, split, map_bytes_segmentsFrom named free]

end ExportNames

namespace Registry

/-- The names of a registry in the order of their values, each with a NUL byte, and a NUL byte at
the end. -/
def rewritten (registry : Registry) : ByteArray :=
  ((registry.sortedByValue.map Record.name).flatMap terminated ++ [0]).toByteArray

namespace Indexes

variable {registry : Registry} {names : List String} (indexes : registry.Indexes names)

include indexes

/-- The records in the order of their values are the names at their first places. -/
theorem map_key_sortedByValue (few : names.length < addressCount) :
    registry.sortedByValue.map key = firstPlaces names :=
  map_key_sortByValue ((pairwise_firstPlaces few).imp .inl) indexes.keys_perm

/-- The names in the order of the values are the list without later copies. -/
theorem map_name_sortedByValue (few : names.length < addressCount) :
    registry.sortedByValue.map Record.name = names.eraseDups := by
  rw [← map_snd_firstPlaces, ← indexes.map_key_sortedByValue few, List.map_map]
  rfl

/-- There are as many records as different names. -/
theorem size_eq : registry.size = names.eraseDups.length := by
  rw [← length_toList, ← List.length_map key, indexes.keys_perm.length_eq, firstPlaces,
    List.length_map]

/-- If no name is repeated, the indices leave no gaps. -/
theorem map_value_sortedByValue (few : names.length < addressCount) (nodup : names.Nodup) :
    registry.sortedByValue.map (fun record => record.value.toNat) = List.range registry.size := by
  have values : registry.sortedByValue.map (fun record => record.value.toNat) =
      (registry.sortedByValue.map key).map fun entry => entry.1.toNat := by
    rw [List.map_map]
    rfl
  have places : (firstPlaces names).map (fun entry => entry.1.toNat) =
      names.map fun name => names.idxOf name := by
    rw [firstPlaces, eraseDups_of_nodup nodup, List.map_map]
    exact List.map_congr_left fun name listed => index_of_firstPlaces few listed
  rw [values, indexes.map_key_sortedByValue few, places, map_idxOf_of_nodup nodup,
    indexes.size_eq, eraseDups_of_nodup nodup]

/-- Registries of two lists agree on a name if it has the same place in both. -/
theorem value_eq_iff {other : Registry} {names' : List String} (indexes' : other.Indexes names')
    (few : names.length < addressCount) (few' : names'.length < addressCount)
    (same : ∀ name, name ∈ names ↔ name ∈ names') :
    (∀ name, (registry.get? name).map Record.value = (other.get? name).map Record.value) ↔
      ∀ name ∈ names, names.idxOf name = names'.idxOf name := by
  constructor
  · intro values name listed
    have value := values name
    rw [indexes.values, indexes'.values, if_pos listed, if_pos ((same name).mp listed),
      Option.some_inj] at value
    rw [← index_of_firstPlaces few listed, ← index_of_firstPlaces few' ((same name).mp listed),
      value]
  · intro places name
    rw [indexes.values, indexes'.values]
    by_cases listed : name ∈ names
    · rw [if_pos listed, if_pos ((same name).mp listed), places name listed]
    · rw [if_neg listed, if_neg fun listed' => listed ((same name).mpr listed')]

end Indexes

/-- A registry is what another one becomes when it is written as a list and read again. -/
structure IsRewritten (renumbered registry : Registry) : Prop where
  /-- The list is accepted. -/
  parsed : parse registry.rewritten = .ok renumbered
  /-- The names come in the same order. -/
  names : renumbered.sortedByValue.map Record.name = registry.sortedByValue.map Record.name
  /-- They are numbered without gaps. -/
  values : renumbered.sortedByValue.map (fun record => record.value.toNat) =
    List.range registry.size
  /-- Written once more, they give the same list. -/
  stable : renumbered.rewritten = registry.rewritten

end Registry

/-- A registry of a list is written as a list that is parsed, and this one gives each name its place
among the different names. -/
theorem exists_isRewritten {registry : Registry} {names : List String}
    (indexes : registry.Indexes names) (few : names.length < addressCount) (named : "" ∉ names)
    (free : ∀ name ∈ names, 0 ∉ Utf8.encode name) :
    ∃ renumbered : Registry, renumbered.IsRewritten registry ∧
      renumbered.Indexes names.eraseDups := by
  have order := indexes.map_name_sortedByValue few
  have named' : "" ∉ names.eraseDups := fun listed => named (List.mem_eraseDups.mp listed)
  have free' : ∀ name ∈ names.eraseDups, 0 ∉ Utf8.encode name := fun name listed =>
    free name (List.mem_eraseDups.mp listed)
  have bytes : registry.rewritten.data.toList = names.eraseDups.flatMap terminated ++ [0] := by
    rw [Registry.rewritten, List.toList_data_toByteArray, order]
  have ends : registry.rewritten.data.back? = some 0 := by
    rw [← Array.getLast?_toList, bytes, List.getLast?_concat]
  have texts : (segments registry.rewritten.data.toList).map Segment.bytes =
      names.eraseDups.map Utf8.encode := by
    rw [bytes, map_bytes_segments_closed named' free']
  have few' : names.eraseDups.length < addressCount :=
    Nat.lt_of_le_of_lt (eraseDups_sublist names).length_le few
  obtain ⟨renumbered, parsed, lists⟩ := exists_parse ends texts
  have indexes' := lists.indexes named'
  have nodup := nodup_eraseDups names
  have order' := indexes'.map_name_sortedByValue few'
  rw [eraseDups_of_nodup nodup] at order'
  have same_size : renumbered.size = registry.size := by
    rw [indexes'.size_eq, indexes.size_eq, eraseDups_of_nodup nodup]
  have rewrites : renumbered.IsRewritten registry := {
    parsed
    names := order'.trans order.symm
    values := same_size ▸ indexes'.map_value_sortedByValue few' nodup
    stable := by rw [Registry.rewritten, Registry.rewritten, order', order] }
  exact ⟨renumbered, rewrites, indexes'⟩

/-- What a list exports can be written as a new list: its names in the order of their values. The
new list takes at most one byte more. It is parsed, the names come in the same order and are
numbered without gaps, and to write them again changes nothing. They keep their indices exactly if
in the old list no new name came behind a repeated one. -/
theorem rewritten_list_stable {data : ByteArray} (small : data.size < 2 ^ 62) {registry : Registry}
    (parsed : parse data = .ok registry) :
    ∃ found names, InOrder data.data.toList found ∧
      found.map Segment.bytes = names.map Utf8.encode ∧
      registry.rewritten.size ≤ data.size + 1 ∧
      ∃ renumbered : Registry, renumbered.IsRewritten registry ∧
        ((∀ name, (renumbered.get? name).map Record.value =
            (registry.get? name).map Record.value) ↔ ¬ RepeatsBeforeNew names) := by
  obtain ⟨ends, names, texts, lists⟩ := parse_eq_ok_iff.mp parsed
  have named := empty_notMem_of_texts (fun _ => bytes_ne_nil) texts
  have few : names.length < addressCount :=
    length_lt_of_texts texts (Nat.lt_trans small (by decide))
  have few' : names.eraseDups.length < addressCount :=
    Nat.lt_of_le_of_lt (eraseDups_sublist names).length_le few
  have indexes := lists.indexes named
  obtain ⟨renumbered, rewrites, indexes'⟩ :=
    exists_isRewritten indexes few named (zero_notMem_of_texts texts)
  have closed : Closed data.data.toList := .inr (by rw [Array.getLast?_toList, ends])
  have room : registry.rewritten.size ≤ data.size + 1 := by
    have written := ((eraseDups_sublist names).flatMap terminated).length_le
    have whole := length_flatMap_terminated_le closed texts
    rw [length_toList_data] at whole
    rw [← length_toList_data, Registry.rewritten, List.toList_data_toByteArray,
      indexes.map_name_sortedByValue few, List.length_append, List.length_singleton]
    omega
  have same : ∀ name, name ∈ names.eraseDups ↔ name ∈ names := fun _ => List.mem_eraseDups
  refine ⟨_, names, segments_inOrder _, texts, room, renumbered, rewrites, ?_⟩
  rw [indexes'.value_eq_iff indexes few' few same, ← idxOf_eraseDups_eq_iff]
  simp only [List.mem_eraseDups]

/-- A list whose last name comes behind a repeated one, and padding between them. -/
def repeatBeforeLast : ByteArray :=
  ⟨#[0x62, 0, 0x4e, 0x53, 0, 0x62, 0, 0, 0x61, 0]⟩

/-- The last name gets a new index, the others keep theirs. An empty list stays as it is. -/
theorem repeatBeforeLast_rewritten :
    repeatBeforeLast.size < 2 ^ 62 ∧
    (∃ registry renumbered : Registry, parse repeatBeforeLast = .ok registry ∧
      renumbered.IsRewritten registry ∧
      registry.rewritten.data.toList = [0x62, 0, 0x4e, 0x53, 0, 0x61, 0, 0] ∧
      ¬ ∀ name, (renumbered.get? name).map Record.value =
        (registry.get? name).map Record.value) ∧
    ∃ renumbered : Registry, parse ⟨#[0]⟩ = .ok .empty ∧ renumbered.IsRewritten .empty ∧
      Registry.empty.rewritten.data.toList = [0] := by
  have small : repeatBeforeLast.size < 2 ^ 62 := by decide +kernel
  have texts : (segments repeatBeforeLast.data.toList).map Segment.bytes =
      ["b", "NS", "b", "a"].map Utf8.encode := by decide +kernel
  obtain ⟨registry, parsed, lists⟩ := exists_parse (by decide +kernel) texts
  obtain ⟨found, names, order, texts', -, renumbered, rewrites, kept⟩ :=
    rewritten_list_stable small parsed
  rw [inOrder_iff.mp order, texts] at texts'
  have read : names = ["b", "NS", "b", "a"] :=
    (List.map_injective_iff.mpr (fun _ _ => Utf8.encode_inj.mp) texts').symm
  have repeats : RepeatsBeforeNew names :=
    ⟨["b", "NS"], "b", [], "a", [], read, by decide, by decide⟩
  have bytes : registry.rewritten.data.toList = [0x62, 0, 0x4e, 0x53, 0, 0x61, 0, 0] := by
    have indexes := lists.indexes (by decide)
    rw [Registry.rewritten, List.toList_data_toByteArray,
      indexes.map_name_sortedByValue (by decide)]
    decide +kernel
  have nothing : parse ⟨#[0]⟩ = .ok .empty := rfl
  obtain ⟨-, -, -, -, -, renumbered', rewrites', -⟩ := rewritten_list_stable (by decide) nothing
  exact ⟨small, ⟨registry, renumbered, parsed, rewrites, bytes, fun same => kept.mp same repeats⟩,
    renumbered', nothing, rewrites', by decide +kernel⟩

end KernelExports
