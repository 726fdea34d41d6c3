import KernelExports.Proofs.AppendedData
import KernelExports.Proofs.MachineReader
import KernelExports.Proofs.SectionNames
import KernelExports.Proofs.SharedBytes

/-!
# The first section of a name

A lookup stops at the first section, the reserved one aside, that has the name or a name that cannot
be read, and nothing behind this section matters. Beside the lookup of this library, which is given
the section names, there is one that is given the section headers only: it finds the names in the
file again at every section, and decodes the name of the section that it stops at. The two agree, so
the name of a section that is found is always text.
-/

namespace KernelExports

open StringTable

/-- A NUL character is spelled by a NUL byte. -/
theorem Utf8.zero_mem_encode {text : String} (nul : Char.ofNat 0 ∈ text.toList) :
    0 ∈ encode text := by
  obtain ⟨before, after, split⟩ := List.append_of_mem nul
  have spelled : [Char.ofNat 0].utf8Encode.data.toList = [0] := by decide +kernel
  rw [encode, String.toUTF8_eq_toByteArray, ← String.utf8Encode_toList, split,
    List.utf8Encode_append, List.utf8Encode_cons, ByteArray.data_append, ByteArray.data_append,
    Array.toList_append, Array.toList_append, spelled]
  exact List.mem_append_right _ (List.mem_append_left _ (List.mem_singleton_self 0))

namespace SectionTable

/-- The name of the section cannot be read: it starts outside of the string table, or no NUL byte
ends it there. -/
def Unnamed (names : ByteArray) (header : SectionHeader) : Prop :=
  names.size ≤ header.name.toNat ∨ 0 ∉ names.data.toList.drop header.name.toNat

/-- A section is unnamed if no entry begins where its name should. -/
theorem unnamed_iff {names : ByteArray} {header : SectionHeader} :
    Unnamed names header ↔ ∀ name, ¬ HasEntry names header.name.toNat name := by
  constructor
  · rintro unnamed name named
    obtain ⟨-, rest, behind⟩ := hasEntry_iff_drop.mp named
    rcases unnamed with outside | free
    · have bound := named.2.le
      rw [List.length_append, List.length_singleton] at bound
      omega
    · rw [behind] at free
      exact free (List.mem_append_right _ List.mem_cons_self)
  · intro none
    by_contra named
    rw [Unnamed, not_or, not_not] at named
    obtain ⟨run, rest, behind, free⟩ := (nul_cases _).resolve_left (not_not_intro named.2)
    exact none run (hasEntry_iff_drop.mpr ⟨free, rest, behind⟩)

/-- The name of an unnamed section cannot be read. -/
theorem exists_nameOf_error {names : ByteArray} {header : SectionHeader}
    (unnamed : Unnamed names header) : ∃ fault, nameOf names header = .error fault := by
  cases read : nameOf names header with
  | error fault => exact ⟨fault, rfl⟩
  | ok name => exact absurd (nameOf_eq_ok_iff.mp read) (unnamed_iff.mp unnamed name)

/-- A lookup of the name goes no further than the section. -/
def Stops (names : ByteArray) (name : List UInt8) (header : SectionHeader) : Prop :=
  Unnamed names header ∨ HasEntry names header.name.toNat name

/-- A walk goes on at a section exactly if the section has another name. -/
theorem not_stops_iff {names : ByteArray} {name : List UInt8} {header : SectionHeader} :
    ¬ Stops names name header ↔ HasOtherName names name header := by
  rw [Stops, not_or, unnamed_iff, not_forall]
  simp only [not_not]
  constructor
  · rintro ⟨⟨found, named⟩, other⟩
    exact ⟨found, named, fun same => other (same ▸ named)⟩
  · rintro ⟨found, named, differs⟩
    exact ⟨⟨found, named⟩, fun this => differs (named.unique this)⟩

/-- What follows a section at which a lookup stops does not matter. -/
theorem firstNamed_of_stops {names : ByteArray} {name : List UInt8} {header : SectionHeader}
    (stops : Stops names name header) (rest : List SectionHeader) :
    firstNamed names name (header :: rest) =
      (nameOf names header).map fun _ => some header := by
  rw [firstNamed]
  cases read : nameOf names header with
  | error fault => rfl
  | ok found =>
    have named := nameOf_eq_ok_iff.mp read
    rcases stops with unnamed | this
    · exact absurd named (unnamed_iff.mp unnamed found)
    · exact if_pos (named.unique this)

/-- The section at an index is the first one at which a lookup of a name stops. -/
structure FirstStop (table : SectionTable) (name : String) (index : Nat) (header : SectionHeader) :
    Prop where
  /-- Index 0 is reserved. -/
  positive : 1 ≤ index
  /-- The header of the section. -/
  stands : table.headers[index]? = some header
  /-- The lookup stops there. -/
  stops : Stops table.names (Utf8.encode name) header
  /-- It does not stop earlier. -/
  earlier : ∀ before other, 1 ≤ before → before < index →
    table.headers[before]? = some other → ¬ Stops table.names (Utf8.encode name) other

/-- Where a lookup stops anywhere, there is a first section at which it stops. -/
theorem exists_firstStop {table : SectionTable} {name : String} {index : Nat}
    {header : SectionHeader} (positive : 1 ≤ index) (stands : table.headers[index]? = some header)
    (stops : Stops table.names (Utf8.encode name) header) :
    ∃ index header, table.FirstStop name index header := by
  -- Induction on the index: an earlier section at which the lookup stops takes its place.
  induction index using Nat.strong_induction_on generalizing header with
  | _ index ih =>
    by_cases earlier : ∀ before other, 1 ≤ before → before < index →
        table.headers[before]? = some other → ¬ Stops table.names (Utf8.encode name) other
    · exact ⟨index, header, positive, stands, stops, earlier⟩
    · push Not at earlier
      obtain ⟨before, other, positive', lower, stands', stops'⟩ := earlier
      exact ih before lower positive' stands' stops'

namespace FirstStop

variable {table : SectionTable} {name : String} {index : Nat} {header : SectionHeader}
  (first : table.FirstStop name index header)

include first

/-- Only the name of the section is left to be seen. -/
theorem locate_eq : table.locate name = (nameOf table.names header).map fun _ => some header := by
  obtain ⟨before, after, split, others⟩ := exists_split_tail first.positive first.stands
    fun before other positive lower stands =>
      not_stops_iff.mp (first.earlier before other positive lower stands)
  rw [locate, split, firstNamed_append others]
  exact firstNamed_of_stops first.stops after

/-- A table with the same names and the same sections up to this one has it as its first, too. -/
theorem congr {table' : SectionTable} (names : table'.names = table.names)
    (same : ∀ other, other ≤ index → table'.headers[other]? = table.headers[other]?) :
    table'.FirstStop name index header where
  positive := first.positive
  stands := (same index le_rfl).trans first.stands
  stops := names ▸ first.stops
  earlier before other positive lower stands := by
    rw [same before lower.le] at stands
    rw [names]
    exact first.earlier before other positive lower stands

end FirstStop

/-- A walk fails at a section whose name cannot be read. -/
theorem exists_of_firstNamed_error {names : ByteArray} {name : List UInt8}
    {headers : List SectionHeader} {fault : Malformation}
    (h : firstNamed names name headers = .error fault) :
    ∃ header ∈ headers, nameOf names header = .error fault := by
  induction headers with
  | nil => cases h
  | cons header rest ih =>
    rw [firstNamed] at h
    split at h
    · next failed =>
      cases h
      exact ⟨header, List.mem_cons_self, failed⟩
    · split at h
      · cases h
      · obtain ⟨later, listed, failed⟩ := ih h
        exact ⟨later, List.mem_cons_of_mem _ listed, failed⟩

/-- A name with a NUL character is the name of no section. -/
theorem locate_ne_some_of_nul {table : SectionTable} {name : String}
    (nul : Char.ofNat 0 ∈ name.toList) (header : SectionHeader) :
    table.locate name ≠ .ok (some header) := by
  intro located
  obtain ⟨index, first⟩ := locate_eq_some_iff.mp located
  exact first.named.1 (Utf8.zero_mem_encode nul)

end SectionTable

namespace ElfFile

open SectionTable

/-- The fault of a section that was found under bytes that are no text. -/
def nameNotText (defect : Utf8.Defect) : Malformation :=
  .other s!"Invalid section name bytes: {defect.message}"

/-- The first section of a name among the given ones, where the section names are cut out of the
file again for every section, and the name of the section that is found is decoded. -/
def scan (bytes : ByteArray) (entry : SectionHeader) (name : String) :
    List SectionHeader → Except Error (Option Section)
  | [] => .ok none
  | header :: rest =>
    match readNames bytes entry with
    | .error fault => .error (.malformed fault)
    | .ok names =>
      match nameOf names header with
      | .error fault => .error (.malformed fault)
      | .ok found =>
        if found = Utf8.encode name then
          match Utf8.decode found with
          | .error defect => .error (.malformed (nameNotText defect))
          | .ok text => (readSection bytes text header).map some
        else scan bytes entry name rest

/-- The first section of a name in a file of which only the headers are known. -/
def lookUp (bytes : ByteArray) (header : FileHeader) (headers : List SectionHeader)
    (name : String) : Except Error (Option Section) :=
  match nameHeader? header headers with
  | none => .ok none
  | some entry => scan bytes entry name headers.tail

/-- With the section names at hand, the walk is the one of the lookup in a table: the bytes that
are decoded spell the name that is looked up. -/
theorem scan_eq {bytes names : ByteArray} {entry : SectionHeader}
    (read : readNames bytes entry = .ok names) (name : String) (reserved : SectionHeader)
    (others : List SectionHeader) :
    scan bytes entry name others = findIn bytes ⟨reserved :: others, names⟩ name := by
  induction others with
  | nil => rfl
  | cons header rest ih =>
    rw [findIn, locate, List.tail_cons] at ih ⊢
    rw [scan, read, firstNamed, ih]
    dsimp only
    cases nameOf names header with
    | error fault => rfl
    | ok found =>
      dsimp only
      by_cases same : found = Utf8.encode name
      · rw [if_pos same, if_pos same, same, Utf8.decode_encode]
        dsimp only
        cases readSection bytes name header <;> rfl
      · rw [if_neg same, if_neg same]

/-- The lookup by the headers is the lookup in the table, or it finds out that there is none. -/
theorem lookUp_eq {header : FileHeader} {headers : List SectionHeader}
    (good : ¬ MissesNames header headers) (bytes : ByteArray) (name : String) :
    lookUp bytes header headers name =
      match ofHeaders bytes header headers with
      | .error fault => .error (.malformed fault)
      | .ok table => findIn bytes table name := by
  rcases nameHeader_cases good with rfl | ⟨entry, stands, more, table⟩
  · rfl
  · obtain ⟨reserved, others, rfl⟩ := List.exists_cons_of_ne_nil (mt (congrArg List.tail) more)
    rw [lookUp, stands, table, List.tail_cons]
    dsimp only
    cases read : readNames bytes entry with
    | error fault =>
      obtain ⟨header, rest, rfl⟩ := List.exists_cons_of_ne_nil more
      rw [scan, read]
      rfl
    | ok names => exact scan_eq read name reserved others

/-- The three outcomes of reading the content of a section. -/
theorem readSection_eq (bytes : ByteArray) (name : String) (header : SectionHeader) :
    ∃ fault, readSection bytes name header =
      if header.type = SectionHeader.noBits then .error (.strippedSection name)
      else if header.size = 0 ∨ bytes.size < header.offset.toNat + header.size.toNat then
        .error (.malformed fault)
      else .ok ⟨name, header,
        bytes.extract header.offset.toNat (header.offset.toNat + header.size.toNat)⟩ := by
  by_cases empty : header.size = 0
  · have cut : header.size = 0 ∨ bytes.size < header.offset.toNat + header.size.toNat := .inl empty
    exact ⟨.emptySection name, by rw [readSection, if_pos empty, if_pos cut]⟩
  · refine ⟨.sectionTruncated name header.offset header.size, ?_⟩
    rw [readSection, if_neg empty, slice?]
    by_cases inside : header.offset.toNat + header.size.toNat ≤ bytes.size
    · have whole : ¬ (header.size = 0 ∨
          bytes.size < header.offset.toNat + header.size.toNat) := by
        rw [not_or, Nat.not_lt]
        exact ⟨empty, inside⟩
      rw [if_pos inside, if_neg whole]
    · have cut : header.size = 0 ∨ bytes.size < header.offset.toNat + header.size.toNat :=
        .inr (Nat.not_le.mp inside)
      rw [if_neg inside, if_pos cut]

/-- A lookup does what is to be done at the first section at which it stops. -/
theorem findIn_of_firstStop {table : SectionTable} {name : String} {index : Nat}
    {header : SectionHeader} (first : table.FirstStop name index header) (bytes : ByteArray) :
    findIn bytes table name =
      match nameOf table.names header with
      | .error fault => .error (.malformed fault)
      | .ok _ => (readSection bytes name header).map some := by
  rw [findIn, first.locate_eq]
  cases nameOf table.names header with
  | error fault => rfl
  | ok found =>
    dsimp only [Except.map]
    cases readSection bytes name header <;> rfl

/-- No lookup fails with a fault in words of its own. -/
theorem findIn_ne_other (bytes : ByteArray) (table : SectionTable) (name text : String) :
    findIn bytes table name ≠ .error (.malformed (.other text)) := by
  rw [findIn]
  split
  · next fault unnamed =>
    rintro ⟨⟩
    obtain ⟨header, -, failed⟩ := exists_of_firstNamed_error unnamed
    rw [nameOf] at failed
    split at failed <;> cases failed
  · simp
  · split
    · next error failed =>
      rintro ⟨⟩
      rw [readSection] at failed
      repeat' split at failed
      all_goals cases failed
    · simp

/-- What a lookup of a name gives: the first section at which it stops decides. -/
structure FirstDecides (file : ElfFile) (name : String) : Prop where
  /-- Nothing is found, and nothing fails, exactly if the lookup stops nowhere. -/
  absent_iff : file.find name = .ok none ↔
    ¬ ∃ index header, file.sections.FirstStop name index header
  /-- A name that cannot be read makes the lookup fail. -/
  unnamed : ∀ index header, file.sections.FirstStop name index header →
    Unnamed file.sections.names header → ∃ fault, file.find name = .error (.malformed fault)
  /-- The content of a section of the name was moved elsewhere exactly if its kind says so. -/
  stripped_iff : ∀ index header, file.sections.FirstStop name index header →
    HasEntry file.sections.names header.name.toNat (Utf8.encode name) →
      (file.find name = .error (.strippedSection name) ↔ header.type = SectionHeader.noBits)
  /-- Otherwise a section without content, or with content that is not in the file, is malformed. -/
  malformed_iff : ∀ index header, file.sections.FirstStop name index header →
    HasEntry file.sections.names header.name.toNat (Utf8.encode name) →
      header.type ≠ SectionHeader.noBits →
        ((∃ fault, file.find name = .error (.malformed fault)) ↔
          header.size = 0 ∨ file.bytes.size < header.offset.toNat + header.size.toNat)
  /-- Otherwise the section is found, with the bytes of its range. -/
  found : ∀ index header, file.sections.FirstStop name index header →
    HasEntry file.sections.names header.name.toNat (Utf8.encode name) →
      header.type ≠ SectionHeader.noBits → header.size ≠ 0 →
        header.offset.toNat + header.size.toNat ≤ file.bytes.size →
          file.find name = .ok (some ⟨name, header,
            file.bytes.extract header.offset.toNat (header.offset.toNat + header.size.toNat)⟩)
  /-- A section that is found has content, as much as its header says. -/
  nonempty : ∀ found, file.find name = .ok (some found) →
    found.data.size = found.header.size.toNat ∧ found.data.size ≠ 0
  /-- The sections behind the first one at which the lookup stops do not matter. -/
  later : ∀ index header, file.sections.FirstStop name index header → ∀ table : SectionTable,
    table.names = file.sections.names →
      (∀ other, other ≤ index → table.headers[other]? = file.sections.headers[other]?) →
        findIn file.bytes table name = file.find name
  /-- A name with a NUL character is the name of no section. -/
  nul : Char.ofNat 0 ∈ name.toList →
    file.find name = .ok none ∨ ∃ fault, file.find name = .error (.malformed fault)
  /-- The bytes of the name of a section that is found are always text. -/
  text : lookUp file.bytes file.header file.sections.headers name = file.find name ∧
    ∀ defect, file.find name ≠ .error (.malformed (nameNotText defect))

section Decides

variable {file : ElfFile} {name : String}

/-- A lookup that stops nowhere finds nothing, and only such a lookup does. -/
theorem find_eq_none_iff_firstStop :
    file.find name = .ok none ↔ ¬ ∃ index header, file.sections.FirstStop name index header := by
  rw [find, findIn_eq_none_iff]
  constructor
  · rintro lacks ⟨index, header, first⟩
    exact not_stops_iff.mpr (lacks index header first.positive first.stands) first.stops
  · intro nowhere index header positive stands
    by_contra stops
    rw [← not_stops_iff, not_not] at stops
    exact nowhere (exists_firstStop positive stands stops)

/-- What is found is the content of the section that the walk stops at. -/
theorem find_eq_readSection {index : Nat} {header : SectionHeader}
    (first : file.sections.FirstStop name index header)
    (named : HasEntry file.sections.names header.name.toNat (Utf8.encode name)) :
    file.find name = (readSection file.bytes name header).map some := by
  rw [find, findIn_of_firstStop first, nameOf_eq_ok_iff.mpr named]

/-- The first section at which the walk stops decides a lookup in a table that was read. -/
theorem firstDecides
    (table : ofHeaders file.bytes file.header file.sections.headers = .ok file.sections)
    (name : String) : file.FirstDecides name where
  absent_iff := find_eq_none_iff_firstStop
  unnamed index header first unnamed := by
    obtain ⟨fault, failed⟩ := exists_nameOf_error unnamed
    exact ⟨fault, by rw [find, findIn_of_firstStop first, failed]⟩
  stripped_iff index header first named := by
    obtain ⟨fault, read⟩ := readSection_eq file.bytes name header
    rw [find_eq_readSection first named, read]
    split
    · next moved => simp [moved, Except.map]
    · next kept => split <;> simp [kept, Except.map]
  malformed_iff index header first named kept := by
    obtain ⟨fault, read⟩ := readSection_eq file.bytes name header
    rw [find_eq_readSection first named, read, if_neg kept]
    split
    · next cut => simp [cut, Except.map]
    · next whole => simp [whole, Except.map]
  found index header first named kept nonempty inside := by
    obtain ⟨fault, read⟩ := readSection_eq file.bytes name header
    have whole : ¬ (header.size = 0 ∨
        file.bytes.size < header.offset.toNat + header.size.toNat) := by
      rw [not_or, Nat.not_lt]
      exact ⟨nonempty, inside⟩
    rw [find_eq_readSection first named, read, if_neg kept, if_neg whole]
    rfl
  nonempty found h := by
    obtain ⟨-, held⟩ := findIn_eq_some_iff.mp h
    exact ⟨held.size, held.nonempty⟩
  later index header first table' names same := by
    rw [find, findIn_of_firstStop first, findIn_of_firstStop (first.congr names same), names]
  nul nul := by
    rw [find, findIn]
    cases located : file.sections.locate name with
    | error fault => exact .inr ⟨fault, rfl⟩
    | ok found =>
      cases found with
      | none => exact .inl rfl
      | some header => exact absurd located (locate_ne_some_of_nul nul header)
  text := by
    rw [lookUp_eq (not_missesNames_of_ofHeaders table), table]
    exact ⟨rfl, fun defect => findIn_ne_other _ _ _ _⟩

end Decides

/-- The section table of an open file is the one that its headers have in it. -/
theorem ofHeaders_of_ofBytes {path : String} {bytes : ByteArray} {file : ElfFile}
    (opened : ofBytes path bytes = .ok file) :
    ofHeaders bytes file.header file.sections.headers = .ok file.sections := by
  obtain ⟨-, -, tables, -⟩ := ofBytes_eq_ok_iff.mp opened
  obtain ⟨-, read⟩ := readTables_eq_ok_iff.mp tables
  rwa [SectionTable.read, readHeaders_of_read read] at read

end ElfFile

/-- In an open file, whose section names stand in it, the first section that has a name, or a name
that cannot be read, decides what a lookup of the name gives. On a machine it gives the same, and no
step traps. -/
theorem first_section_decides {path : String} {bytes : ByteArray} {file : ElfFile}
    (opened : ElfFile.ofBytes path bytes = .ok file) :
    file.bytes = bytes ∧
    (file.sections.headers ≠ [] →
      ∃ entry, SectionTable.nameHeader? file.header file.sections.headers = some entry ∧
        slice? bytes entry.offset.toNat entry.size.toNat = some file.sections.names) ∧
    (∀ name, file.FirstDecides name) ∧
    (bytes.size < 2 ^ 63 →
      ∃ onMachine, Machine.File.ofBytes bytes = .ok (.ok onMachine) ∧
        ∀ name, onMachine.find name = .ok (file.find name)) := by
  have table := ElfFile.ofHeaders_of_ofBytes opened
  obtain ⟨-, rfl, -⟩ := ElfFile.ofBytes_eq_ok_iff.mp opened
  refine ⟨rfl, SectionTable.exists_nameHeader table, ElfFile.firstDecides table, fun small => ?_⟩
  rcases Machine.File.ofBytes_cases small path with
    ⟨error, -, failed⟩ | ⟨onMachine, same, h, h', represents⟩
  · rw [opened] at failed
    cases failed
  · rw [opened, Except.ok.injEq] at h'
    subst h'
    exact ⟨onMachine, h, represents.find_eq⟩

/-- In a module with one export, the list of exports is the section at index 1, and the start of a
name of a section is the name of none. -/
theorem signedModule_sections :
    ElfFile.ofBytes "plain.ko" signedModule.file =
      .ok (signedModule.opened [⟨"alpha", 1, 16⟩] "plain.ko") ∧
    (signedModule.opened [⟨"alpha", 1, 16⟩] "plain.ko").find ".symta" = .ok none ∧
    ∃ header, signedModule.sectionHeaders[0]? = some header ∧
      (signedModule.opened [⟨"alpha", 1, 16⟩] "plain.ko").find exportSection =
        .ok (some ⟨exportSection, header, signedModule.file.extract header.offset.toNat
          (header.offset.toNat + header.size.toNat)⟩) := by
  have opened := signedModule_contains.ofBytes_file "plain.ko"
  obtain ⟨bytes, -, decides, -⟩ := first_section_decides opened
  have others : ∀ header ∈ signedModule.sectionHeaders,
      ∃ name ∈ signedModule.names,
        SectionTable.nameOf signedModule.nameBytes header = .ok (Utf8.encode name) := by
    decide +kernel
  have nowhere : ¬ ∃ index header,
      (signedModule.opened [⟨"alpha", 1, 16⟩] "plain.ko").sections.FirstStop ".symta" index
        header := by
    rintro ⟨index, header, first⟩
    obtain ⟨before, rfl⟩ := Nat.exists_eq_add_of_le' first.positive
    obtain ⟨name, member, named⟩ := others header (List.mem_of_getElem? first.stands)
    have differs : ∀ name ∈ signedModule.names, Utf8.encode name ≠ Utf8.encode ".symta" := by
      decide +kernel
    exact SectionTable.not_stops_iff.mpr
      ⟨_, SectionTable.nameOf_eq_ok_iff.mp named, differs name member⟩ first.stops
  have missing := (decides ".symta").absent_iff.mpr nowhere
  obtain ⟨header, stands, named, kept, nonempty, inside⟩ :
      ∃ header, signedModule.sectionHeaders[0]? = some header ∧
        SectionTable.nameOf signedModule.nameBytes header = .ok (Utf8.encode exportSection) ∧
        header.type ≠ SectionHeader.noBits ∧ header.size ≠ 0 ∧
        header.offset.toNat + header.size.toNat ≤ signedModule.toBytes.length :=
    ⟨_, rfl, by decide +kernel, by decide +kernel, by decide +kernel, by decide +kernel⟩
  have entry := SectionTable.nameOf_eq_ok_iff.mp named
  have first : (signedModule.opened [⟨"alpha", 1, 16⟩] "plain.ko").sections.FirstStop
      exportSection 1 header :=
    ⟨le_rfl, stands, .inr entry, fun before other positive lower => by omega⟩
  have bound : header.offset.toNat + header.size.toNat ≤
      (signedModule.opened [⟨"alpha", 1, 16⟩] "plain.ko").bytes.size := by
    rwa [bytes, FileImage.file, List.size_toByteArray]
  have found := (decides exportSection).found 1 header first entry kept nonempty bound
  rw [bytes] at found
  exact ⟨opened, missing, header, stands, found⟩

end KernelExports
