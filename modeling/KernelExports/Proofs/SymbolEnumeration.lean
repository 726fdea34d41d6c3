import KernelExports.Proofs.MachineSession
import KernelExports.Proofs.SharedBytes

/-!
# What an iterator over symbols yields

An iterator is made for every symbol table of whole records and for no other. Asked for its next
item until there is none, it comes to an end, and it has then given one item for each record but the
reserved one whose binding is global or weak and that has a name, in table order. The item is the
symbol if the string table has a text at the place of the name and a fault otherwise, and a fault
does not keep the records behind it from giving theirs.

What a record says is read off its bytes here, at the places that the format gives them. Bytes at
other places have no influence on the items.
-/

namespace KernelExports

open LittleEndian StringTable

namespace Machine

namespace Symbols

/-- An iterator whose records are whole comes to the end and gives its items. -/
theorem drains_iff {symbols : Symbols} (valid : symbols.Valid)
    {given : List (Except Malformation GlobalSymbol)} :
    Drains next symbols given ↔ given = symbols.items :=
  drains_iff_of_step (fun _ => next_eq) valid

end Symbols

end Machine

namespace SymbolTable

/-- The record at an index can back an export: what its bytes say, as far as anything depends on
it. -/
structure Stands (symbols : ByteArray) (index : Nat) (binding : Binding) (place : UInt32)
    (value : UInt64) : Prop where
  /-- Index 0 is reserved. -/
  positive : 1 ≤ index
  /-- The record is in the table. -/
  inside : 24 * index + 24 ≤ symbols.size
  /-- The number of the binding is in the upper four bits of byte 4. -/
  code_at : ∃ info, symbols.data[24 * index + 4]? = some info ∧ info >>> 4 = binding.code
  /-- The place of the name is the word in bytes 0 to 3, -/
  place_at : Placed symbols (24 * index) (bytes 4 place.toNat)
  /-- where zero stands for no name. -/
  named : place ≠ 0
  /-- The value is the word in bytes 8 to 15. -/
  value_at : Placed symbols (24 * index + 8) (bytes 8 value.toNat)

/-- The item that the record at an index gives. -/
inductive Gives (symbols names : ByteArray) (index : Nat) :
    Except Malformation GlobalSymbol → Prop where
  /-- The string table has a text at the place of the name. -/
  | symbol {binding : Binding} {place : UInt32} {value : UInt64} {name : String}
    (stands : Stands symbols index binding place value)
    (entry : HasEntry names place.toNat (Utf8.encode name)) :
    Gives symbols names index (.ok ⟨name, value, binding⟩)
  /-- It has none. -/
  | fault {binding : Binding} {place : UInt32} {value : UInt64} {fault : Malformation}
    (stands : Stands symbols index binding place value)
    (no_text : ¬ ∃ name, HasEntry names place.toNat (Utf8.encode name))
    (cause : GlobalSymbol.nameAt names place = .error fault) :
    Gives symbols names index (.error fault)

/-- The items are those of the records at the given indices, the ones that give an item. -/
structure Itemises (symbols names : ByteArray) (indices : List Nat)
    (items : List (Except Malformation GlobalSymbol)) : Prop where
  /-- Earlier records come first. -/
  sorted : indices.Pairwise (· < ·)
  /-- All records that can back an export are there, and no others. -/
  mem_iff : ∀ index, index ∈ indices ↔
    ∃ binding place value, Stands symbols index binding place value
  /-- Each of them gives the item in its place. -/
  gives : List.Forall₂ (Gives symbols names) indices items

/-- What a record says is what its bytes say. -/
theorem stands_iff {symbols : ByteArray} {index : Nat} {record : SymbolRecord}
    (positive : 1 ≤ index) (found : decode? SymbolRecord symbols (24 * index) = some record)
    {binding : Binding} {place : UInt32} {value : UInt64} :
    Stands symbols index binding place value ↔
      Binding.ofInfo? record.info = some binding ∧ record.name = place ∧ place ≠ 0 ∧
        record.value = value := by
  have placed := decode?_eq_some_iff.mp found
  have inside := placed.le
  rw [LawfulLayout.length_toBytes] at inside
  change Placed symbols _ (SymbolRecord.toBytes record) at placed
  simp only [SymbolRecord.toBytes, Placed.append_iff, List.length_append, length_bytes] at placed
  obtain ⟨⟨⟨⟨⟨name_at, info_at⟩, -⟩, -⟩, value_at⟩, -⟩ := placed
  have info_at : symbols.data[24 * index + 4]? = some record.info := by
    rw [← Placed.singleton_iff]
    simpa [bytes] using info_at
  have word {width first second offset : Nat} (fits : first < 256 ^ width)
      (fits' : second < 256 ^ width) (h : Placed symbols offset (bytes width first))
      (h' : Placed symbols offset (bytes width second)) : first = second := by
    have same := congrArg LittleEndian.value (h.eq_of_length h' (by simp))
    rwa [value_bytes, value_bytes, Nat.mod_eq_of_lt fits, Nat.mod_eq_of_lt fits'] at same
  rw [GlobalSymbol.ofInfo?_eq_some_iff]
  constructor
  · rintro ⟨-, -, ⟨info, stands, code⟩, place_at, named, value_at'⟩
    rw [info_at, Option.some_inj] at stands
    have same_place := word record.name.toNat_lt place.toNat_lt name_at place_at
    have same_value := word record.value.toNat_lt value.toNat_lt value_at value_at'
    exact ⟨stands ▸ code, UInt32.toNat_inj.mp same_place, named, UInt64.toNat_inj.mp same_value⟩
  · rintro ⟨code, rfl, named, rfl⟩
    exact ⟨positive, inside, ⟨_, info_at, code⟩, name_at, named, value_at⟩

/-- The reader of records gives the item that the bytes of the record give. -/
theorem gives_iff {symbols names : ByteArray} {index : Nat} {record : SymbolRecord}
    (positive : 1 ≤ index) (found : decode? SymbolRecord symbols (24 * index) = some record)
    {item : Except Malformation GlobalSymbol} :
    Gives symbols names index item ↔ GlobalSymbol.ofRecord? names record = some item := by
  constructor
  · rintro (⟨stands, entry⟩ | ⟨stands, -, cause⟩)
    · obtain ⟨binding, rfl, named, value⟩ := (stands_iff positive found).mp stands
      exact GlobalSymbol.ofRecord?_eq_some_ok_iff.mpr ⟨binding, named, entry, value.symm⟩
    · obtain ⟨binding, rfl, named, -⟩ := (stands_iff positive found).mp stands
      rw [GlobalSymbol.ofRecord?, binding]
      dsimp only
      rw [if_neg named, cause]
  · intro given
    cases binding : Binding.ofInfo? record.info with
    | none =>
      rw [GlobalSymbol.ofRecord?, binding] at given
      cases given
    | some code =>
      rw [GlobalSymbol.ofRecord?, binding] at given
      dsimp only at given
      split at given
      · cases given
      · next named =>
        have stands := (stands_iff positive found).mpr ⟨binding, rfl, named, rfl⟩
        cases read : GlobalSymbol.nameAt names record.name with
        | ok name =>
          rw [read] at given
          cases given
          exact .symbol stands (GlobalSymbol.nameAt_eq_ok_iff.mp read)
        | error fault =>
          rw [read] at given
          cases given
          exact .fault stands (GlobalSymbol.no_entry_of_nameAt_error read) read

/-- A record gives an item exactly if it can back an export. -/
theorem exists_gives_iff {symbols names : ByteArray} {index : Nat} :
    (∃ item, Gives symbols names index item) ↔
      ∃ binding place value, Stands symbols index binding place value := by
  constructor
  · rintro ⟨_, stands, -⟩
    · exact ⟨_, _, _, stands⟩
    · next stands _ _ => exact ⟨_, _, _, stands⟩
  · rintro ⟨binding, place, value, stands⟩
    cases read : GlobalSymbol.nameAt names place with
    | ok name => exact ⟨_, .symbol stands (GlobalSymbol.nameAt_eq_ok_iff.mp read)⟩
    | error fault => exact ⟨_, .fault stands (GlobalSymbol.no_entry_of_nameAt_error read) read⟩

/-- The item of the record at an index, if it gives one. -/
def itemAt (symbols names : ByteArray) (index : Nat) : Option (Except Malformation GlobalSymbol) :=
  (decode? SymbolRecord symbols (24 * index)).bind (GlobalSymbol.ofRecord? names)

/-- The item at an index is the one that the record there gives. -/
theorem itemAt_eq_some_iff {symbols names : ByteArray} {index : Nat} (positive : 1 ≤ index)
    {item : Except Malformation GlobalSymbol} :
    itemAt symbols names index = some item ↔ Gives symbols names index item := by
  rw [itemAt]
  cases found : decode? SymbolRecord symbols (24 * index) with
  | some record => exact (gives_iff positive found).symm
  | none =>
    refine iff_of_false (by simp) fun given => ?_
    obtain ⟨binding, place, value, stands⟩ := exists_gives_iff.mp ⟨item, given⟩
    rw [decode?_eq_none_iff] at found
    exact Nat.not_le.mpr found stands.inside

/-- The items of a table, index by index. -/
theorem filterMap_records_tail (symbols names : ByteArray) :
    (records SymbolRecord symbols).tail.filterMap (GlobalSymbol.ofRecord? names) =
      (List.range' 1 (symbols.size / 24 - 1)).filterMap (itemAt symbols names) := by
  have indices : (List.range (symbols.size / 24)).tail = List.range' 1 (symbols.size / 24 - 1) := by
    rw [List.range_eq_range', List.tail_range']
  rw [records, ← List.map_tail, List.filterMap_map]
  change (List.range (symbols.size / 24)).tail.filterMap _ = _
  rw [indices]
  refine List.filterMap_congr fun index listed => ?_
  have inside : index < symbols.size / 24 := by
    rw [List.mem_range'_1] at listed
    omega
  have record := getElem?_records (α := SymbolRecord) (by decide) symbols index
  change _ = decode? SymbolRecord symbols (24 * index) at record
  rw [itemAt, ← record, records, List.getElem?_map]
  change _ = Option.bind (Option.map _ (List.range (symbols.size / 24))[index]?) _
  rw [List.getElem?_range inside]
  rfl

/-- The results of a list are those of its elements that give one. -/
theorem forall₂_filterMap {α β : Type} {Gives : α → β → Prop} {given : α → Option β}
    {list : List α}
    (gives : ∀ element ∈ list, ∀ result, given element = some result → Gives element result) :
    List.Forall₂ Gives (list.filter fun element => (given element).isSome)
      (list.filterMap given) := by
  induction list with
  | nil => exact .nil
  | cons element rest ih =>
    obtain ⟨first, others⟩ := List.forall_mem_cons.mp gives
    cases result : given element with
    | none =>
      rw [List.filter_cons_of_neg (by simp [result]), List.filterMap_cons_none result]
      exact ih others
    | some item =>
      rw [List.filter_cons_of_pos (by simp [result]), List.filterMap_cons_some result]
      exact .cons (first item result) (ih others)

/-- Walking over the records gives the items of those that can back an export. -/
theorem exists_itemises (symbols names : ByteArray) :
    ∃ indices, Itemises symbols names indices
      ((records SymbolRecord symbols).tail.filterMap (GlobalSymbol.ofRecord? names)) := by
  have positive : ∀ index ∈ List.range' 1 (symbols.size / 24 - 1), 1 ≤ index := fun index listed =>
    (List.mem_range'_1.mp listed).1
  rw [filterMap_records_tail]
  refine ⟨_, (List.pairwise_lt_range' ..).filter _, fun index => ?_, forall₂_filterMap
    fun index listed item given => (itemAt_eq_some_iff (positive index listed)).mp given⟩
  have standing : (∃ item, Gives symbols names index item) ↔
      ∃ binding place value, Stands symbols index binding place value := exists_gives_iff
  rw [List.mem_filter, ← standing, Option.isSome_iff_exists]
  constructor
  · rintro ⟨listed, item, given⟩
    exact ⟨item, (itemAt_eq_some_iff (positive index listed)).mp given⟩
  · rintro ⟨item, given⟩
    obtain ⟨binding, place, value, stands⟩ := exists_gives_iff.mp ⟨item, given⟩
    have listed : index ∈ List.range' 1 (symbols.size / 24 - 1) := by
      have first := stands.positive
      have inside := stands.inside
      rw [List.mem_range'_1]
      omega
    exact ⟨listed, item, (itemAt_eq_some_iff stands.positive).mpr given⟩

/-! ### What has no influence -/

/-- Two tables of the same size whose records, the reserved one aside, say the same about bindings,
names and values. -/
structure SameSymbols (first second : ByteArray) : Prop where
  /-- The tables have the same size. -/
  size : second.size = first.size
  /-- The upper four bits of byte 4 are the same, -/
  codes : ∀ index (info info' : UInt8), 1 ≤ index → first.data[24 * index + 4]? = some info →
    second.data[24 * index + 4]? = some info' → info' >>> 4 = info >>> 4
  /-- and so are bytes 0 to 3 -/
  places : ∀ index, 1 ≤ index → SameIn first second (24 * index) 4
  /-- and bytes 8 to 15. -/
  values : ∀ index, 1 ≤ index → SameIn first second (24 * index + 8) 8

/-- Tables that say the same of their symbols do so in either order. -/
theorem SameSymbols.symm {first second : ByteArray} (same : SameSymbols first second) :
    SameSymbols second first where
  size := same.size.symm
  codes index info info' positive stands stands' :=
    (same.codes index info' info positive stands' stands).symm
  places index positive place behind inside := (same.places index positive place behind inside).symm
  values index positive place behind inside := (same.values index positive place behind inside).symm

/-- What stands where two files share their bytes stands in both. -/
theorem placed_of_sameIn {first second : ByteArray} {offset : Nat} {content : List UInt8}
    (length : second.size = first.size) (same : SameIn first second offset content.length)
    (placed : Placed first offset content) : Placed second offset content := by
  rw [Placed.iff_take_drop] at placed ⊢
  rw [length, ← sameIn_iff_take_drop.mp same]
  exact placed

/-- A record that can back an export can do so in either table. -/
theorem SameSymbols.stands {first second : ByteArray} (same : SameSymbols first second)
    {index : Nat} {binding : Binding} {place : UInt32} {value : UInt64}
    (stands : Stands first index binding place value) :
    Stands second index binding place value := by
  obtain ⟨positive, inside, ⟨info, info_at, code⟩, place_at, named, value_at⟩ := stands
  have there : 24 * index + 4 < second.data.size := by
    rw [ByteArray.size_data, same.size]
    omega
  have info_at' := Array.getElem?_eq_getElem there
  have code' := (same.codes index info _ positive info_at info_at').trans code
  exact {
    positive := positive
    inside := same.size.symm ▸ inside
    code_at := ⟨_, info_at', code'⟩
    place_at := placed_of_sameIn same.size (by simpa using same.places index positive) place_at
    named := named
    value_at := placed_of_sameIn same.size (by simpa using same.values index positive) value_at }

/-- A record gives the same item in either table. -/
theorem SameSymbols.gives {first second names : ByteArray} (same : SameSymbols first second)
    {index : Nat} {item : Except Malformation GlobalSymbol} (given : Gives first names index item) :
    Gives second names index item := by
  cases given with
  | symbol stands entry => exact .symbol (same.stands stands) entry
  | fault stands no_text cause => exact .fault (same.stands stands) no_text cause

/-- The items depend on nothing else. -/
theorem SameSymbols.globalSymbols_eq {first second : ByteArray} (same : SameSymbols first second)
    (names : ByteArray) : globalSymbols second names = globalSymbols first names := by
  rw [globalSymbols, globalSymbols, same.size, filterMap_records_tail, filterMap_records_tail,
    same.size]
  split
  · refine congrArg Except.ok (List.filterMap_congr fun index listed => Option.ext fun item => ?_)
    have positive := (List.mem_range'_1.mp listed).1
    rw [itemAt_eq_some_iff positive, itemAt_eq_some_iff positive]
    exact ⟨same.symm.gives, same.gives⟩
  · rfl

end SymbolTable

/-- A symbol table is refused exactly if it does not consist of whole records. The iterator over any
other table comes to an end, and it gives one item for each record that can back an export, in table
order, where a fault ends nothing. Nothing but the upper half of byte 4, the word in bytes 0 to 3
and the one in bytes 8 to 15 of the records behind the reserved one affects the items. -/
theorem iterator_yields_exported (symbols names : ByteArray) (small : names.size < 2 ^ 63) :
    ((∃ fault, Machine.Symbols.start symbols names = .error fault) ↔ symbols.size % 24 ≠ 0) ∧
    (∀ fault, Machine.Symbols.start symbols names = .error fault →
      globalSymbols symbols names = .error fault) ∧
    (∀ iterator, Machine.Symbols.start symbols names = .ok iterator →
      ∃ indices items, SymbolTable.Itemises symbols names indices items ∧
        (∀ given, Machine.Drains Machine.Symbols.next iterator given ↔ given = items) ∧
        globalSymbols symbols names = .ok items) ∧
    ∀ other, SymbolTable.SameSymbols symbols other →
      globalSymbols other names = globalSymbols symbols names := by
  refine ⟨?_, ?_, ?_, fun other same => same.globalSymbols_eq names⟩
  · rw [Machine.Symbols.start]
    split
    · next whole => simp [whole]
    · next ragged => simp [ragged]
  · intro fault refused
    rcases Machine.Symbols.start_cases symbols small with
      ⟨fault', failed, failed'⟩ | ⟨iterator, started, -, -⟩
    · rw [failed, Except.error.injEq] at refused
      rw [failed', refused]
    · rw [started] at refused
      cases refused
  · intro iterator started
    rcases Machine.Symbols.start_cases symbols small with
      ⟨fault', failed, -⟩ | ⟨iterator', started', listed, valid⟩
    · rw [failed] at started
      cases started
    · rw [started', Except.ok.injEq] at started
      subst started
      obtain ⟨-, given⟩ := globalSymbols_eq_ok_iff.mp listed
      obtain ⟨indices, itemises⟩ := SymbolTable.exists_itemises symbols names
      exact ⟨indices, _, given ▸ itemises, fun _ => Machine.Symbols.drains_iff valid, listed⟩

/-- A reserved record, a local symbol and a global one whose names are outside of the string table,
and a weak symbol. -/
def mixedSymbols : ByteArray :=
  encode (⟨1, 0x10, 0, 1, 0x20, 8⟩ : SymbolRecord) ++
    encode (⟨9, 0x02, 0, 1, 0x40, 8⟩ : SymbolRecord) ++
    encode (⟨9, 0x12, 0, 1, 0x60, 8⟩ : SymbolRecord) ++
    encode (⟨1, 0x21, 3, 2, 0x80, 16⟩ : SymbolRecord)

/-- The reserved record and the local symbol give nothing, and the symbol behind the one that cannot
be read is still there. -/
theorem iterator_yields_mixed :
    (ByteArray.mk #[0, 0x62, 0]).size < 2 ^ 63 ∧
    ∃ iterator, Machine.Symbols.start mixedSymbols ⟨#[0, 0x62, 0]⟩ = .ok iterator ∧
      Machine.Drains Machine.Symbols.next iterator
        [.error (.symbolNameOffset 9 3), .ok ⟨"b", 0x80, .weak⟩] := by
  have small : (ByteArray.mk #[0, 0x62, 0]).size < 2 ^ 63 := by decide
  have whole : mixedSymbols.size % 24 = 0 := by decide +kernel
  have listed : globalSymbols mixedSymbols ⟨#[0, 0x62, 0]⟩ =
      .ok [.error (.symbolNameOffset 9 3), .ok ⟨"b", 0x80, .weak⟩] := by
    decide +kernel
  obtain ⟨refused, -, yields, -⟩ := iterator_yields_exported mixedSymbols _ small
  cases started : Machine.Symbols.start mixedSymbols ⟨#[0, 0x62, 0]⟩ with
  | error fault => exact absurd whole (refused.mp ⟨fault, started⟩)
  | ok iterator =>
    obtain ⟨indices, items, -, only, listed'⟩ := yields iterator started
    rw [listed, Except.ok.injEq] at listed'
    exact ⟨small, iterator, rfl, (only _).mpr listed'⟩

end KernelExports
