import KernelExports.Proofs.StringTables
import KernelExports.Elf.File

/-!
# What a lookup finds

A section is found under a name if it is the first one of the name, all sections before it have
names that can be read, and its content is in the file. The lookup succeeds under exactly these
conditions, and it reports that there is no such section exactly if every section has another name.
-/

namespace KernelExports

open StringTable

namespace SectionTable

/-- The name of a section is the entry at its place. -/
theorem nameOf_eq_ok_iff {names : ByteArray} {header : SectionHeader} {name : List UInt8} :
    nameOf names header = .ok name ↔ HasEntry names header.name.toNat name := by
  rw [← entry_eq_ok_iff, nameOf]
  split <;> simp_all

/-- The name of the section can be read, and it is not the given one. -/
def HasOtherName (names : ByteArray) (name : List UInt8) (header : SectionHeader) : Prop :=
  ∃ found, HasEntry names header.name.toNat found ∧ found ≠ name

/-- The walk over headers, one header at a time. -/
theorem firstNamed_cons (names : ByteArray) (name : List UInt8) (header : SectionHeader)
    (rest : List SectionHeader) :
    (HasEntry names header.name.toNat name →
      firstNamed names name (header :: rest) = .ok (some header)) ∧
    (HasOtherName names name header →
      firstNamed names name (header :: rest) = firstNamed names name rest) ∧
    (¬ HasEntry names header.name.toNat name → ¬ HasOtherName names name header →
      ∃ fault, firstNamed names name (header :: rest) = .error fault) := by
  constructor
  · intro named
    rw [firstNamed, nameOf_eq_ok_iff.mpr named]
    exact if_pos rfl
  constructor
  · intro other
    obtain ⟨found, named, differs⟩ := other
    rw [firstNamed, nameOf_eq_ok_iff.mpr named]
    exact if_neg differs
  · intro unnamed no_other
    cases h : nameOf names header with
    | error fault =>
      have failed : firstNamed names name (header :: rest) = .error fault := by
        rw [firstNamed, h]
      exact ⟨fault, failed⟩
    | ok found =>
      rw [nameOf_eq_ok_iff] at h
      by_cases same : found = name
      · exact absurd (same ▸ h) unnamed
      · exact absurd ⟨found, h, same⟩ no_other

/-- Sections of other names are passed over. -/
theorem firstNamed_append {names : ByteArray} {name : List UInt8} {before : List SectionHeader}
    (others : ∀ other ∈ before, HasOtherName names name other) (rest : List SectionHeader) :
    firstNamed names name (before ++ rest) = firstNamed names name rest := by
  induction before with
  | nil => rfl
  | cons header before ih =>
    obtain ⟨first, later⟩ := List.forall_mem_cons.mp others
    rw [List.cons_append, (firstNamed_cons names name header _).2.1 first]
    exact ih later

/-- Nothing is found exactly if all sections have other names. -/
theorem firstNamed_eq_none_iff {names : ByteArray} {name : List UInt8}
    {headers : List SectionHeader} :
    firstNamed names name headers = .ok none ↔
      ∀ header ∈ headers, HasOtherName names name header := by
  constructor
  · intro h
    induction headers with
    | nil => simp
    | cons header rest ih =>
      obtain ⟨hit, skip, bad⟩ := firstNamed_cons names name header rest
      by_cases other : HasOtherName names name header
      · rw [skip other] at h
        exact List.forall_mem_cons.mpr ⟨other, ih h⟩
      · by_cases this : HasEntry names header.name.toNat name
        · rw [hit this] at h
          cases h
        · obtain ⟨fault, error⟩ := bad this other
          rw [error] at h
          cases h
  · intro others
    rw [← List.append_nil headers, firstNamed_append others]
    rfl

/-- The section that is found has the name, and those before it have others. -/
theorem firstNamed_eq_some_iff {names : ByteArray} {name : List UInt8}
    {headers : List SectionHeader} {header : SectionHeader} :
    firstNamed names name headers = .ok (some header) ↔
      ∃ before after, headers = before ++ header :: after ∧
        (∀ other ∈ before, HasOtherName names name other) ∧
        HasEntry names header.name.toNat name := by
  constructor
  · intro h
    induction headers with
    | nil => cases h
    | cons first rest ih =>
      obtain ⟨hit, skip, bad⟩ := firstNamed_cons names name first rest
      by_cases other : HasOtherName names name first
      · rw [skip other] at h
        obtain ⟨before, after, rfl, others, this⟩ := ih h
        exact ⟨first :: before, after, rfl, List.forall_mem_cons.mpr ⟨other, others⟩, this⟩
      · by_cases this : HasEntry names first.name.toNat name
        · rw [hit this] at h
          cases h
          exact ⟨[], rest, rfl, List.forall_mem_nil _, this⟩
        · obtain ⟨fault, error⟩ := bad this other
          rw [error] at h
          cases h
  · intro h
    obtain ⟨before, after, rfl, others, named⟩ := h
    rw [firstNamed_append others, (firstNamed_cons names name header after).1 named]

/-- A section other than the reserved one divides the sections behind that one. -/
theorem exists_split_tail {headers : List SectionHeader} {index : Nat} {header : SectionHeader}
    (positive : 1 ≤ index) (stands : headers[index]? = some header) {P : SectionHeader → Prop}
    (earlier : ∀ before other, 1 ≤ before → before < index → headers[before]? = some other →
      P other) :
    ∃ before after, headers.tail = before ++ header :: after ∧ ∀ other ∈ before, P other := by
  have in_tail : headers.tail[index - 1]? = some header := by
    rw [List.getElem?_tail, Nat.sub_add_cancel positive, stands]
  obtain ⟨inside, found⟩ := List.getElem?_eq_some_iff.mp in_tail
  have split : headers.tail =
      headers.tail.take (index - 1) ++ header :: headers.tail.drop (index - 1 + 1) := by
    rw [← found, ← List.drop_eq_getElem_cons inside, List.take_append_drop]
  have others : ∀ other ∈ headers.tail.take (index - 1), P other := by
    intro other member
    obtain ⟨before, lower, rfl⟩ := List.mem_take_iff_getElem.mp member
    have at_index : headers[before + 1]? = some headers.tail[before] := by
      rw [← List.getElem?_tail, List.getElem?_eq_getElem]
    exact earlier (before + 1) _ (Nat.succ_pos _) (by omega) at_index
  exact ⟨_, _, split, others⟩

/-- The section at an index is the first one of a name: it has the name, and all sections before it,
the reserved one aside, have other names that can be read. -/
structure IsFirst (table : SectionTable) (name : String) (index : Nat) (header : SectionHeader) :
    Prop where
  /-- Index 0 is reserved. -/
  positive : 1 ≤ index
  /-- The header of the section. -/
  stands : table.headers[index]? = some header
  /-- It has the name. -/
  named : HasEntry table.names header.name.toNat (Utf8.encode name)
  /-- No section before it has the name, or has a name that cannot be read. -/
  others : ∀ earlier other, 1 ≤ earlier → earlier < index →
    table.headers[earlier]? = some other → HasOtherName table.names (Utf8.encode name) other

/-- Every section, the reserved one aside, has another name that can be read. -/
def Lacks (table : SectionTable) (name : String) : Prop :=
  ∀ index header, 1 ≤ index → table.headers[index]? = some header →
    HasOtherName table.names (Utf8.encode name) header

/-- No section is found for exactly the names that the table lacks. -/
theorem locate_eq_none_iff {table : SectionTable} {name : String} :
    table.locate name = .ok none ↔ table.Lacks name := by
  rw [locate, Lacks, firstNamed_eq_none_iff]
  constructor
  · intro others index header positive stands
    have at_tail : table.headers.tail[index - 1]? = some header := by
      rw [List.getElem?_tail, Nat.sub_add_cancel positive, stands]
    exact others header (List.mem_of_getElem? at_tail)
  · intro others header member
    obtain ⟨index, stands⟩ := List.mem_iff_getElem?.mp member
    rw [List.getElem?_tail] at stands
    exact others (index + 1) header (Nat.succ_pos index) stands

/-- The section that is found is the first one of the name. -/
theorem locate_eq_some_iff {table : SectionTable} {name : String} {header : SectionHeader} :
    table.locate name = .ok (some header) ↔ ∃ index, table.IsFirst name index header := by
  rw [locate, firstNamed_eq_some_iff]
  constructor
  · intro h
    obtain ⟨before, after, split, others, named⟩ := h
    have stands : table.headers[before.length + 1]? = some header := by
      rw [← List.getElem?_tail, split, List.getElem?_append_right (Nat.le_refl _), Nat.sub_self,
        List.getElem?_cons_zero]
    have earlier_others : ∀ earlier other, 1 ≤ earlier → earlier < before.length + 1 →
        table.headers[earlier]? = some other →
          HasOtherName table.names (Utf8.encode name) other := by
      intro earlier other positive lower stands
      have inside : (before ++ header :: after)[earlier - 1]? = before[earlier - 1]? :=
        List.getElem?_append_left (by omega)
      have listed : before[earlier - 1]? = some other := by
        rw [← inside, ← split, List.getElem?_tail, Nat.sub_add_cancel positive, stands]
      exact others other (List.mem_of_getElem? listed)
    exact ⟨_, Nat.succ_pos _, stands, named, earlier_others⟩
  · intro h
    obtain ⟨index, first⟩ := h
    obtain ⟨before, after, split, others⟩ :=
      exists_split_tail first.positive first.stands first.others
    exact ⟨before, after, split, others, first.named⟩

/-- The section that a lookup finds: the first one of the name, with content in the file. -/
structure Holds (table : SectionTable) (bytes : ByteArray) (name : String)
    (header : SectionHeader) (content : ByteArray) : Prop where
  /-- It is the first one of the name. -/
  first : ∃ index, table.IsFirst name index header
  /-- Its content was not moved elsewhere. -/
  kept : header.type ≠ SectionHeader.noBits
  /-- Its content is not empty. -/
  nonempty : content.size ≠ 0
  /-- Its content has the stated size. -/
  size : content.size = header.size.toNat
  /-- Its content stands in the file at the stated offset. -/
  placed : Placed bytes header.offset.toNat content.data.toList

end SectionTable

namespace ElfFile

open SectionTable

/-- The content that is read is the one that the header points to. -/
theorem readSection_eq_ok_iff {bytes : ByteArray} {name : String} {header : SectionHeader}
    {found : Section} :
    readSection bytes name header = .ok found ↔
      found.name = name ∧ found.header = header ∧ header.type ≠ SectionHeader.noBits ∧
        found.data.size ≠ 0 ∧ found.data.size = header.size.toNat ∧
        Placed bytes header.offset.toNat found.data.data.toList := by
  have zero : header.size = 0 ↔ header.size.toNat = 0 := by
    rw [← UInt64.toNat_inj]
    rfl
  rw [readSection]
  by_cases moved : header.type = SectionHeader.noBits
  · rw [if_pos moved]
    simp [moved]
  · rw [if_neg moved]
    by_cases empty : header.size = 0
    · have no_bytes : header.size.toNat = 0 := zero.mp empty
      rw [if_pos empty]
      simp only [reduceCtorEq, false_iff]
      intro h
      obtain ⟨-, -, -, nonempty, size, -⟩ := h
      exact nonempty (size.trans no_bytes)
    · have some_bytes : header.size.toNat ≠ 0 := mt zero.mpr empty
      rw [if_neg empty]
      constructor
      · intro h
        split at h
        · next data read =>
          cases h
          obtain ⟨size, placed⟩ := slice?_eq_some_iff.mp read
          have nonempty : data.size ≠ 0 := fun none => some_bytes (size.symm.trans none)
          exact ⟨rfl, rfl, moved, nonempty, size, placed⟩
        · cases h
      · intro h
        obtain ⟨rfl, rfl, -, -, size, placed⟩ := h
        rw [slice?_eq_some_iff.mpr ⟨size, placed⟩]

/-- A section whose content cannot be had was moved, or it is malformed. -/
theorem readSection_error {bytes : ByteArray} {name : String} {header : SectionHeader}
    {error : Error} (h : readSection bytes name header = .error error) :
    error = .strippedSection name ∨ ∃ fault, error = .malformed fault := by
  rw [readSection] at h
  split at h
  · cases h
    exact .inl rfl
  · split at h
    · cases h
      exact .inr ⟨_, rfl⟩
    · split at h
      · cases h
      · cases h
        exact .inr ⟨_, rfl⟩

/-- A lookup fails on a section without content in the file, or on a malformed one. -/
theorem findIn_error {bytes : ByteArray} {table : SectionTable} {name : String} {error : Error}
    (h : findIn bytes table name = .error error) :
    error = .strippedSection name ∨ ∃ fault, error = .malformed fault := by
  rw [findIn] at h
  split at h
  · cases h
    exact .inr ⟨_, rfl⟩
  · cases h
  · split at h
    · next read =>
      cases h
      exact readSection_error read
    · cases h

/-- What is found is what the table holds. -/
theorem findIn_eq_some_iff {bytes : ByteArray} {table : SectionTable} {name : String}
    {found : Section} :
    findIn bytes table name = .ok (some found) ↔
      found.name = name ∧ table.Holds bytes name found.header found.data := by
  rw [findIn]
  constructor
  · intro h
    split at h
    · cases h
    · cases h
    · next header located =>
      split at h
      · cases h
      · next content read =>
        cases h
        obtain ⟨rfl, rfl, kept, nonempty, size, placed⟩ := readSection_eq_ok_iff.mp read
        exact ⟨rfl, locate_eq_some_iff.mp located, kept, nonempty, size, placed⟩
  · intro h
    obtain ⟨rfl, first, kept, nonempty, size, placed⟩ := h
    have read : readSection bytes found.name found.header = .ok found :=
      readSection_eq_ok_iff.mpr ⟨rfl, rfl, kept, nonempty, size, placed⟩
    rw [locate_eq_some_iff.mpr first]
    dsimp only
    rw [read]

/-- What is missed the table lacks. -/
theorem findIn_eq_none_iff {bytes : ByteArray} {table : SectionTable} {name : String} :
    findIn bytes table name = .ok none ↔ table.Lacks name := by
  rw [← locate_eq_none_iff, findIn]
  constructor
  · intro h
    split at h
    · cases h
    · next located => exact located
    · split at h <;> cases h
  · intro h
    rw [h]

/-- The content that a lookup in the file finds under a name. -/
def Holds (file : ElfFile) (name : String) (content : ByteArray) : Prop :=
  ∃ header, file.sections.Holds file.bytes name header content

/-- A file holds the content that a lookup finds. -/
theorem holds_iff_find {file : ElfFile} {name : String} {content : ByteArray} :
    file.Holds name content ↔ ∃ found, file.find name = .ok (some found) ∧
      found.data = content := by
  constructor
  · intro h
    obtain ⟨header, held⟩ := h
    exact ⟨⟨name, header, content⟩, findIn_eq_some_iff.mpr ⟨rfl, held⟩, rfl⟩
  · intro h
    obtain ⟨found, lookup, rfl⟩ := h
    exact ⟨found.header, (findIn_eq_some_iff.mp lookup).2⟩

/-- A file is open if its tables can be read and the lookup of its symbol names does not fail. -/
theorem ofBytes_eq_ok_iff {path : String} {bytes : ByteArray} {file : ElfFile} :
    ofBytes path bytes = .ok file ↔
      file.path = path ∧ file.bytes = bytes ∧
        readTables bytes = .ok (file.header, file.sections) ∧
        ∃ names, file.find symbolNameSection = .ok names ∧
          file.symbolNames = names.map Section.data := by
  rw [ofBytes]
  constructor
  · intro h
    split at h
    · cases h
    · next header table tables =>
      split at h
      · cases h
      · next names found =>
        cases h
        exact ⟨rfl, rfl, tables, names, found, rfl⟩
  · intro h
    obtain ⟨path', bytes', header, table, symbolNames⟩ := file
    obtain ⟨rfl, rfl, tables, names, found, rfl⟩ := h
    rw [find] at found
    rw [tables]
    dsimp only at found ⊢
    rw [found]

/-- The symbol names of an open file are the content of their section. -/
theorem symbolNames_eq_some_iff {path : String} {bytes : ByteArray} {file : ElfFile}
    (opened : ofBytes path bytes = .ok file) {names : ByteArray} :
    file.symbolNames = some names ↔ file.Holds symbolNameSection names := by
  obtain ⟨-, -, -, found, h, kept⟩ := ofBytes_eq_ok_iff.mp opened
  rw [kept, holds_iff_find, Option.map_eq_some_iff]
  constructor
  · intro kept_names
    obtain ⟨content, rfl, rfl⟩ := kept_names
    exact ⟨content, h, rfl⟩
  · intro lookup
    obtain ⟨content, h', rfl⟩ := lookup
    rw [h, Except.ok.injEq] at h'
    exact ⟨content, h', rfl⟩

end ElfFile

end KernelExports
