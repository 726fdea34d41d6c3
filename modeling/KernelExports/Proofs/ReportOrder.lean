import KernelExports.Proofs.AppendedData
import KernelExports.Proofs.ConfirmationOrder
import KernelExports.Proofs.RecordOrder

/-!
# Reports and the order of records

A registry may give its records in any order. Where the values of unmarked records differ, the order
makes no difference to a report. The registry of a list of exports has no value twice, whatever is
marked later, so there is one report on each file. The lines for all its exports are those of the
different names of the list, in the order of their first listings and with the indices of these.
-/

namespace KernelExports

open ExportNames Record

/-! ### Reports on registries -/

namespace Registry

/-- The values of the records that are not marked are different from each other. -/
def UnmarkedApart (registry : Registry) : Prop :=
  (registry.unmarked.map Prod.snd).Nodup

/-- If no two records have the same value, no two unmarked ones do. -/
theorem unmarkedApart_of_values {registry : Registry}
    (apart : (registry.toList.map Record.value).Nodup) : registry.UnmarkedApart := by
  rw [UnmarkedApart, unmarked, unmarkedOf, List.map_map]
  exact apart.sublist (List.filter_sublist.map Record.value)

end Registry

namespace Report

/-- The list part of a report is the same for every order of the records. -/
theorem listing_eq_of_perm {first second : List Record} (same : first.Perm second) :
    listing first = listing second := by
  have sorted := Registry.pairwise_sortByValue second
  have keys : (second.map key).Perm ((Registry.sortByValue second).map key) :=
    ((Registry.sortByValue_perm second).map key).symm
  rw [listing_eq_of_keys sorted ((same.map key).trans keys), listing_eq_of_keys sorted keys]

/-- The part on confirmation is the same for every order of the records, if no two unmarked ones
have the same value. -/
theorem confirmation_eq_of_perm {first second : List Record} (same : first.Perm second)
    (apart : ((Registry.unmarkedOf first).map Prod.snd).Nodup) (colors : Bool) (markCount : Nat) :
    confirmation colors first markCount = confirmation colors second markCount := by
  have unmarked : (Registry.unmarkedOf first).Perm (Registry.unmarkedOf second) :=
    (same.filter _).map _
  rw [confirmation, confirmation, same.length_eq, sortByIndex_eq_of_perm apart unmarked]

/-- In whatever order the records come, the report is that on the registry. -/
theorem ofRecords_eq_ofRegistry {registry : Registry} (apart : registry.UnmarkedApart)
    {records : List Record} (same : records.Perm registry.toList) (colors : Bool)
    (options : ReportOptions) (path : String) :
    ofRecords colors options path records registry.markCount =
      ofRegistry colors options path registry := by
  rw [ofRegistry, ofRecords, ofRecords, same.length_eq, listing_eq_of_perm same,
    ← confirmation_eq_of_perm same.symm apart]

end Report

/-! ### Registries of lists of exports -/

/-- A name behind the others is a new one or changes nothing. -/
theorem eraseDups_concat (before : List String) (name : String) :
    (before ++ [name]).eraseDups =
      if name ∈ before then before.eraseDups else before.eraseDups ++ [name] := by
  rw [List.eraseDups_append]
  by_cases repeated : name ∈ before
  · have nothing : [name].removeAll before = [] := by simp [List.cons_removeAll, repeated]
    rw [nothing, List.eraseDups_nil, List.append_nil, if_pos repeated]
  · have last : ([name].removeAll before).eraseDups = [name] := by
      simp [List.cons_removeAll, List.eraseDups_cons, repeated]
    rw [last, if_neg repeated]

/-- The different elements of a list come in the order of their first places. -/
theorem pairwise_idxOf_eraseDups (names : List String) :
    names.eraseDups.Pairwise fun first second => names.idxOf first < names.idxOf second := by
  -- From the end of the list, because a name behind the others leaves their first places.
  induction names using List.reverseRecOn with
  | nil => exact .nil
  | append_singleton before name ih =>
    have same : ∀ other ∈ before.eraseDups,
        (before ++ [name]).idxOf other = before.idxOf other := fun other listed =>
      List.idxOf_append_of_mem (List.mem_eraseDups.mp listed)
    have sorted : before.eraseDups.Pairwise fun first second =>
        (before ++ [name]).idxOf first < (before ++ [name]).idxOf second :=
      ih.imp_of_mem fun listed listed' lower => by rwa [same _ listed, same _ listed']
    rw [eraseDups_concat]
    split
    · exact sorted
    · next fresh =>
      rw [List.pairwise_append]
      refine ⟨sorted, List.pairwise_singleton _ _, fun other listed => ?_⟩
      have lower := List.idxOf_lt_length_of_mem (List.mem_eraseDups.mp listed)
      rw [List.forall_mem_singleton, same other listed, List.idxOf_append_of_notMem fresh,
        List.idxOf_cons_self]
      exact lower

/-- A list without later copies has no repetitions. -/
theorem nodup_eraseDups (names : List String) : names.eraseDups.Nodup := by
  refine (pairwise_idxOf_eraseDups names).imp fun {first second} lower => ?_
  intro same
  rw [same] at lower
  exact Nat.lt_irrefl _ lower

/-- The different names of a list with the indices of their first places, in the order of these. -/
def firstPlaces (names : List String) : List (UInt64 × String) :=
  names.eraseDups.map fun name => (UInt64.ofNat (names.idxOf name), name)

/-- The names at their first places are the list without later copies. -/
theorem map_snd_firstPlaces (names : List String) :
    (firstPlaces names).map Prod.snd = names.eraseDups := by
  rw [firstPlaces, List.map_map]
  exact List.map_id _

/-- The first place of a name is a word. -/
theorem index_of_firstPlaces {names : List String} (few : names.length < addressCount)
    {name : String} (listed : name ∈ names) :
    (UInt64.ofNat (names.idxOf name)).toNat = names.idxOf name :=
  UInt64.toNat_ofNat_of_lt' (Nat.lt_trans (List.idxOf_lt_length_of_mem listed) few)

/-- The indices increase strictly. -/
theorem pairwise_firstPlaces {names : List String} (few : names.length < addressCount) :
    (firstPlaces names).Pairwise fun first second => first.1 < second.1 := by
  rw [firstPlaces, List.pairwise_map]
  refine (pairwise_idxOf_eraseDups names).imp_of_mem fun listed listed' lower => ?_
  rwa [UInt64.lt_iff_toNat_lt, index_of_firstPlaces few (List.mem_eraseDups.mp listed),
    index_of_firstPlaces few (List.mem_eraseDups.mp listed')]

namespace Registry

/-- Whatever is marked, the registry has the names of a list, each with the index of its first place
there. -/
structure Indexes (registry : Registry) (names : List String) : Prop where
  /-- Every record stands under its own name. -/
  wellFormed : registry.WellFormed
  /-- The value of each name. -/
  values : ∀ name, (registry.get? name).map Record.value =
    if name ∈ names then some (UInt64.ofNat (names.idxOf name)) else none

/-- A registry that lists names gives each of them the index of its first place. -/
theorem Lists.indexes {registry : Registry} {names : List String} (lists : registry.Lists names)
    (named : "" ∉ names) : registry.Indexes names where
  wellFormed := lists.wellFormed named
  values name := by
    rw [lists.records]
    split <;> rfl

namespace Indexes

variable {registry : Registry} {names : List String} (indexes : registry.Indexes names)

include indexes

/-- The keys of the records are the first places with their names. -/
theorem mem_keys_iff {value : UInt64} {name : String} :
    (value, name) ∈ registry.toList.map key ↔ (value, name) ∈ firstPlaces names := by
  rw [indexes.wellFormed.mem_keys_iff, ← Option.map_eq_some_iff, indexes.values, firstPlaces,
    List.mem_map]
  simp only [List.mem_eraseDups, Prod.mk.injEq]
  constructor
  · intro placed
    split at placed
    · next listed => exact ⟨name, listed, Option.some.inj placed, rfl⟩
    · cases placed
  · rintro ⟨name, listed, rfl, rfl⟩
    rw [if_pos listed]

/-- The records are the first places of the names, apart from marks and links. -/
theorem keys_perm : (registry.toList.map key).Perm (firstPlaces names) := by
  have nodup : (registry.toList.map key).Nodup := by
    have distinct := indexes.wellFormed.consistent.distinct
    exact .of_map Prod.snd (by rwa [List.map_map])
  have nodup' : (firstPlaces names).Nodup :=
    .of_map Prod.snd (map_snd_firstPlaces names ▸ nodup_eraseDups names)
  rw [List.perm_ext_iff_of_nodup nodup nodup']
  exact fun _ => indexes.mem_keys_iff

/-- No two records have the same value, whether they are marked or not. -/
theorem unmarkedApart (few : names.length < addressCount) : registry.UnmarkedApart := by
  have apart : ((firstPlaces names).map Prod.fst).Nodup :=
    (pairwise_firstPlaces few).map _ fun _ _ lower => UInt64.ne_of_lt lower
  have perm : (registry.toList.map Record.value).Perm ((firstPlaces names).map Prod.fst) := by
    have keys := indexes.keys_perm.map Prod.fst
    rwa [List.map_map] at keys
  exact unmarkedApart_of_values (perm.nodup_iff.mpr apart)

/-- The list part of the report shows the names at their first places. -/
theorem listing_eq (few : names.length < addressCount) :
    Report.listing registry.toList =
      String.join ((firstPlaces names).map fun (index, name) => Report.line index name) :=
  Report.listing_eq_of_keys ((pairwise_firstPlaces few).imp .inl) indexes.keys_perm

/-- Marks change nothing about that. -/
theorem of_values {marked : Registry} (wellFormed : marked.WellFormed)
    (same : ∀ name, (marked.get? name).map Record.value = (registry.get? name).map Record.value) :
    marked.Indexes names where
  wellFormed := wellFormed
  values name := by rw [same, indexes.values]

end Indexes

/-- Marking leaves the values of all records. -/
theorem value_run_marks (registry : Registry) (marks : List String) (name : String) :
    ((registry.run (marks.map .mark)).get? name).map Record.value =
      (registry.get? name).map Record.value := by
  induction marks generalizing registry with
  | nil => rfl
  | cons first rest ih =>
    rw [List.map_cons, run_cons, ih, ← mark_eq_perform, get?_mark, Option.map_map]
    rfl

end Registry

/-- The registry of a list of exports has no value twice, and marks do not change that. -/
theorem unmarkedApart_of_parse {data : ByteArray} {registry : Registry}
    (small : data.size < addressCount) (parsed : parse data = .ok registry)
    (marks : List String) : (registry.run (marks.map .mark)).UnmarkedApart := by
  obtain ⟨-, names, texts, lists⟩ := parse_eq_ok_iff.mp parsed
  have indexes := lists.indexes (empty_notMem_of_texts (fun _ => bytes_ne_nil) texts)
  have marked := indexes.of_values (Registry.wellFormed_run indexes.wellFormed _)
    (registry.value_run_marks marks)
  exact marked.unmarkedApart (length_lt_of_texts texts small)

/-! ### Reports on files -/

/-- The report on the file at a path, if `yields` says in which order a registry gives its
records. -/
def Report.ofPathBy (yields : Registry → List Record) (files : FileSystem) (colors : Bool)
    (options : ReportOptions) (path : String) : Except Error String :=
  match
    if options.confirm then readConfirmedExports files path else readExports files path
  with
  | .error error => .error error
  | .ok none => .ok (skipped colors path)
  | .ok (some registry) => .ok (ofRecords colors options path (yields registry) registry.markCount)

/-- The file at a path exports names, which are the texts in its list of exports. -/
structure ExportsNames (files : FileSystem) (path : String) (names : List String) : Prop where
  /-- The names are the texts of the segments, in order. -/
  texts : ∃ file content segments, openElf files path = .ok (some file) ∧
    file.Holds exportSection content ∧ InOrder content.data.toList segments ∧
    segments.map Segment.bytes = names.map Utf8.encode
  /-- All indices are words. -/
  few : names.length < addressCount

/-- Exports that are extracted are names that the file lists. -/
theorem exists_exportsNames_of_extract {files : FileSystem} {path : String} {file : ElfFile}
    {plain : Registry} (found : openElf files path = .ok (some file))
    (extraction : extract file = .ok (some plain)) :
    ∃ names, ExportsNames files path names ∧ plain.Indexes names := by
  obtain ⟨content, held, parsed, -⟩ := extract_eq_some_iff.mp extraction
  obtain ⟨-, names, texts, lists⟩ := parse_eq_ok_iff.mp parsed
  have small : content.size < addressCount := by
    obtain ⟨header, held⟩ := held
    exact held.size ▸ header.size.toNat_lt
  have exported : ExportsNames files path names :=
    ⟨⟨file, content, _, found, held, segments_inOrder _, texts⟩, length_lt_of_texts texts small⟩
  exact ⟨names, exported, lists.indexes (empty_notMem_of_texts (fun _ => bytes_ne_nil) texts)⟩

/-- Confirmed exports are extracted ones that have been confirmed. -/
theorem confirm_of_readConfirmedExports {files : FileSystem} {path : String}
    {confirmed : Registry} (read : readConfirmedExports files path = .ok (some confirmed)) :
    ∃ file plain, openElf files path = .ok (some file) ∧ extract file = .ok (some plain) ∧
      (confirm file plain).2 = confirmed := by
  rw [readConfirmedExports] at read
  split at read
  · cases read
  · cases read
  · next file found =>
    split at read
    · cases read
    · cases read
    · next plain extraction =>
      split at read
      · cases read
      · next newly left confirmation =>
        cases read
        exact ⟨file, plain, found, extraction, by rw [confirmation]⟩

/-- Nothing is confirmed only where nothing is extracted. -/
theorem readExports_of_readConfirmedExports {files : FileSystem} {path : String}
    (nothing : readConfirmedExports files path = .ok none) :
    readExports files path = .ok none := by
  rw [readConfirmedExports] at nothing
  split at nothing
  · cases nothing
  · next other => exact readExports_eq_none_iff.mpr (.inl other)
  · next file found =>
    split at nothing
    · cases nothing
    · next missing => exact readExports_eq_none_iff.mpr (.inr ⟨file, found, missing⟩)
    · split at nothing <;> cases nothing

/-- A confirmation leaves the values of all records. -/
theorem Registry.Indexes.confirmed {plain : Registry} {names : List String}
    (indexes : plain.Indexes names) (file : ElfFile) : (confirm file plain).2.Indexes names := by
  rw [confirm_eq_markAll]
  refine indexes.of_values (wellFormed_markAll indexes.wellFormed _) fun name => ?_
  rw [get?_markAll, Option.map_map]
  rfl

/-- Whether or not exports are confirmed, a registry that is read has the names of the file. -/
theorem exists_exportsNames {files : FileSystem} {path : String} {confirming : Bool}
    {registry : Registry}
    (read : (if confirming then readConfirmedExports files path else readExports files path) =
      .ok (some registry)) :
    ∃ names, ExportsNames files path names ∧ registry.Indexes names := by
  cases confirming with
  | false =>
    obtain ⟨file, found, extraction⟩ := readExports_eq_some_iff.mp read
    exact exists_exportsNames_of_extract found extraction
  | true =>
    obtain ⟨file, plain, found, extraction, rfl⟩ := confirm_of_readConfirmedExports read
    obtain ⟨names, exported, indexes⟩ := exists_exportsNames_of_extract found extraction
    exact ⟨names, exported, indexes.confirmed file⟩

/-- A report with a line for each export. -/
inductive Report.ListsExports (files : FileSystem) (colors : Bool) (options : ReportOptions)
    (path : String) : String → Prop where
  /-- The file is not ELF or has no list of exports. -/
  | skipped (nothing : readExports files path = .ok none) :
    ListsExports files colors options path (skipped colors path)
  /-- Behind the heading the different names of the list stand in the order of their first listings,
  under the indices of these, which increase strictly. -/
  | listed {names : List String} {entries : List (UInt64 × String)} {registry : Registry}
    (read : (if options.confirm then readConfirmedExports files path
      else readExports files path) = .ok (some registry))
    (exported : ExportsNames files path names)
    (increasing : entries.Pairwise fun first second => first.1 < second.1)
    (firsts : entries.map Prod.snd = names.eraseDups)
    (indices : ∀ index name, (index, name) ∈ entries → index.toNat = names.idxOf name) :
    ListsExports files colors options path
      (Style.bold.paint colors path ++ s!": {entries.length} exported symbols\n" ++
        String.join (entries.map fun (index, name) => line index name) ++
        if options.confirm then confirmation colors registry.toList registry.markCount else "")

/-- A report with a list part shows the names that the file exports. -/
theorem Report.listsExports {files : FileSystem} {colors : Bool} {options : ReportOptions}
    {path text : String} (all : options.list = true)
    (reported : ofPath files colors options path = .ok text) :
    ListsExports files colors options path text := by
  rw [ofPath] at reported
  split at reported
  · cases reported
  · next nothing =>
    cases reported
    split at nothing
    · exact .skipped (readExports_of_readConfirmedExports nothing)
    · exact .skipped nothing
  · next registry read =>
    cases reported
    obtain ⟨names, exported, indexes⟩ := exists_exportsNames read
    have length : registry.toList.length = (firstPlaces names).length := by
      rw [← indexes.keys_perm.length_eq, List.length_map]
    have indices : ∀ index name, (index, name) ∈ firstPlaces names →
        index.toNat = names.idxOf name := by
      intro index name placed
      obtain ⟨name, listed, same⟩ := List.mem_map.mp placed
      cases same
      exact index_of_firstPlaces exported.few (List.mem_eraseDups.mp listed)
    rw [ofRegistry, ofRecords, if_pos all, length, indexes.listing_eq exported.few]
    exact .listed read exported (pairwise_firstPlaces exported.few) (map_snd_firstPlaces names)
      indices

/-- The order in which a registry gives its records has no influence on a report if the values of
unmarked records differ. They do in every registry of a list of exports, whatever is marked. So
there is one report on each file, and where it has a line for each export, these are the different
names of its list in the order of their first listings, with indices that increase strictly. -/
theorem report_ignores_record_order :
    (∀ registry : Registry, registry.UnmarkedApart → ∀ first second : List Record,
      first.Perm registry.toList → second.Perm registry.toList → ∀ colors options path,
        Report.ofRecords colors options path first registry.markCount =
          Report.ofRecords colors options path second registry.markCount) ∧
    (∀ (data : ByteArray) (registry : Registry), data.size < addressCount →
      parse data = .ok registry → ∀ marks : List String,
        (registry.run (marks.map .mark)).UnmarkedApart) ∧
    (∀ yields : Registry → List Record, (∀ registry, (yields registry).Perm registry.toList) →
      ∀ files colors options path,
        Report.ofPathBy yields files colors options path =
          Report.ofPath files colors options path) ∧
    ∀ files colors options path text, options.list = true →
      Report.ofPath files colors options path = .ok text →
        Report.ListsExports files colors options path text := by
  refine ⟨?_, fun _ _ few parsed marks => unmarkedApart_of_parse few parsed marks, ?_,
    fun _ _ _ _ _ all reported => Report.listsExports all reported⟩
  · intro registry apart first second same same' colors options path
    rw [Report.ofRecords_eq_ofRegistry apart same, Report.ofRecords_eq_ofRegistry apart same']
  · intro yields orders files colors options path
    rw [Report.ofPathBy, Report.ofPath]
    cases read : if options.confirm then readConfirmedExports files path
        else readExports files path with
    | error error => rfl
    | ok found =>
      cases found with
      | none => rfl
      | some registry =>
        obtain ⟨names, exported, indexes⟩ := exists_exportsNames read
        dsimp only
        rw [Report.ofRecords_eq_ofRegistry (indexes.unmarkedApart exported.few) (orders registry)]

/-- Three records, one of them marked. -/
def oneMarked : Registry :=
  Registry.empty.run [.insert "a" 2, .insert "b" 0, .insert "c" 1, .mark "b"]

/-- Records in another order, a list that names an export twice, and a module with one export. -/
theorem oneMarked_reported :
    oneMarked.UnmarkedApart ∧
    Report.ofRegistry false ⟨true, true⟩ "k.ko" oneMarked =
      "k.ko: 3 exported symbols\n     0 b\n     1 c\n     2 a\n" ++
        "1 confirmed in .symtab, 2 unconfirmed\n     1 c\n     2 a\n" ∧
    (∃ registry, parse (["a", "b", "a"].flatMap terminated).toByteArray =
      .ok registry ∧ (registry.run [.mark "b"]).UnmarkedApart) ∧
    ∃ text, Report.ofPath (fun _ => .ok signedModule.file) false ⟨true, false⟩ "plain.ko" =
        .ok text ∧
      Report.ofPathBy (fun registry => registry.toList.reverse) (fun _ => .ok signedModule.file)
        false ⟨true, false⟩ "plain.ko" = .ok text ∧
      Report.ListsExports (fun _ => .ok signedModule.file) false ⟨true, false⟩ "plain.ko" text := by
  obtain ⟨any_order, apart, any_file, listed⟩ := report_ignores_record_order
  have unmarked : oneMarked.UnmarkedApart := by
    rw [Registry.UnmarkedApart]
    decide +kernel
  have reversed : [⟨"c", 1, false, none⟩, ⟨"b", 0, true, none⟩, ⟨"a", 2, false, none⟩].Perm
      oneMarked.toList := by decide +kernel
  have report := any_order oneMarked unmarked _ _ .rfl reversed false ⟨true, true⟩ "k.ko"
  have count : oneMarked.markCount = 1 := by decide +kernel
  have text : Report.ofRecords false ⟨true, true⟩ "k.ko"
      [⟨"c", 1, false, none⟩, ⟨"b", 0, true, none⟩, ⟨"a", 2, false, none⟩] 1 =
        "k.ko: 3 exported symbols\n     0 b\n     1 c\n     2 a\n" ++
          "1 confirmed in .symtab, 2 unconfirmed\n     1 c\n     2 a\n" := by cbv
  obtain ⟨repeated, parsed, -⟩ := exists_parse_eq_ok (List.cons_ne_nil "a" ["b", "a"])
    (by decide) (by decide +kernel)
  have small : (["a", "b", "a"].flatMap terminated).toByteArray.size < addressCount := by
    decide +kernel
  have contains := signedModule_contains
  obtain ⟨plain, -, read, -⟩ :=
    contains.exists_readExports (fun _ => .ok signedModule.file) "plain.ko" rfl
  have reported : Report.ofPath (fun _ => .ok signedModule.file) false ⟨true, false⟩ "plain.ko" =
      .ok (Report.ofRegistry false ⟨true, false⟩ "plain.ko" plain) := by
    rw [Report.ofPath, if_neg Bool.false_ne_true, read]
  have reported' := any_file (fun registry => registry.toList.reverse)
    (fun registry => registry.toList.reverse_perm) (fun _ => .ok signedModule.file) false
    ⟨true, false⟩ "plain.ko"
  rw [count, text] at report
  exact ⟨unmarked, report, ⟨repeated, parsed, apart _ _ small parsed ["b"]⟩, _, reported,
    reported'.trans reported, listed _ _ _ _ _ rfl reported⟩

end KernelExports
