import KernelExports.Proofs.ExtractionLaws
import KernelExports.Report

/-!
# How extraction fails

A path may have no content. Every other failure refuses an ELF file: it is not a 64-bit one, it is
malformed, or a section that is looked up was moved to another file. Each stage is shown to fail in
no other way; the two kinds of error that a registry has for an insertion never get out of the list
of exports, where no name is empty and a repeated one is passed over.
-/

namespace KernelExports

/-- The errors that refuse an ELF file. -/
inductive Error.Refusal : Error → Prop where
  /-- It is not a 64-bit one. -/
  | unsupportedClass (found : UInt8) : Refusal (.unsupportedClass found)
  /-- It is malformed. -/
  | malformed (fault : Malformation) : Refusal (.malformed fault)
  /-- One of the three sections that are looked up was moved to another file. -/
  | strippedSection (name : String)
    (looked_up : name = symbolNameSection ∨ name = exportSection ∨ name = symbolSection) :
    Refusal (.strippedSection name)

/-- A file that is refused comes from a build that is of no use. -/
theorem Error.Refusal.isFatal {error : Error} (refusal : error.Refusal) : error.isFatal = true := by
  cases refusal <;> rfl

namespace ExportNames

/-- A name that is not empty can always be entered, repeated or not. -/
theorem exists_enter (registry : Registry) {item : ExportName} (named : item.name ≠ "") :
    ∃ extended, enter registry item = .ok extended := by
  rw [enter, Registry.insert]
  cases taken : registry.get? item.name with
  | some old =>
    rw [Registry.insertCopy_duplicate named taken]
    exact ⟨registry, rfl⟩
  | none =>
    cases added : registry.insertCopy ⟨item.name, UInt64.ofNat item.index, false, none⟩ with
    | error error => simp [Registry.insertCopy, Registry.contains, named, taken] at added
    | ok extended => exact ⟨extended, rfl⟩

/-- So only a name that cannot be read keeps names from being entered. -/
theorem enterAll_error {registry : Registry} {items : List (Except Malformation ExportName)}
    (named : ∀ item, .ok item ∈ items → item.name ≠ "") {error : Error}
    (h : enterAll registry items = .error error) : error.Refusal := by
  induction items generalizing registry with
  | nil => cases h
  | cons item rest ih =>
    cases item with
    | error fault =>
      cases h
      exact .malformed fault
    | ok item =>
      obtain ⟨extended, entered⟩ := exists_enter registry (named item List.mem_cons_self)
      rw [enterAll, entered] at h
      exact ih (fun later listed => named later (List.mem_cons_of_mem _ listed)) h

/-- The splitter gives no empty name, as no segment is empty. -/
theorem named_of_split {data : ByteArray} {items : List (Except Malformation ExportName)}
    (h : split data = .ok items) : ∀ item, .ok item ∈ items → item.name ≠ "" := by
  intro item listed empty
  rw [split] at h
  split at h
  · cases h
    obtain ⟨⟨segment, index⟩, numbered, read⟩ := List.mem_map.mp listed
    have text : Utf8.encode item.name = segment.bytes := (read_eq_ok_iff.mp read).2
    have found : segment ∈ segments data.data.toList := List.fst_mem_of_mem_zipIdx numbered
    rw [empty, Utf8.encode_empty] at text
    exact bytes_ne_nil found text.symm
  · cases h

/-- A list of exports that cannot be parsed refuses the file. -/
theorem parse_error {data : ByteArray} {error : Error} (h : parse data = .error error) :
    error.Refusal := by
  rw [parse] at h
  split at h
  · next fault unread =>
    cases h
    exact .malformed fault
  · next items split_ok => exact enterAll_error (named_of_split split_ok) h

end ExportNames

namespace ElfFile

/-- A header that is not accepted refuses the file, unless it is not ELF at all. -/
theorem readHeader_error {bytes : ByteArray} {error : Error}
    (h : readHeader bytes = .error error) : error = .notElf ∨ error.Refusal := by
  rw [readHeader] at h
  repeat' split at h
  all_goals cases h
  · exact .inl rfl
  · exact .inl rfl
  · exact .inr (.unsupportedClass _)
  · exact .inr (.malformed _)
  · exact .inr (.malformed _)
  · exact .inr (.malformed _)

/-- Section headers that cannot be read refuse the file. -/
theorem readTables_error {bytes : ByteArray} {error : Error}
    (h : readTables bytes = .error error) : error = .notElf ∨ error.Refusal := by
  rw [readTables] at h
  split at h
  · next unread =>
    cases h
    exact readHeader_error unread
  · split at h
    · next fault unread =>
      cases h
      exact .inr (.malformed fault)
    · cases h

/-- A lookup of one of the three sections that fails refuses the file. -/
theorem findIn_refusal {bytes : ByteArray} {table : SectionTable} {name : String} {error : Error}
    (looked_up : name = symbolNameSection ∨ name = exportSection ∨ name = symbolSection)
    (h : findIn bytes table name = .error error) : error.Refusal := by
  rcases findIn_error h with rfl | ⟨fault, rfl⟩
  · exact .strippedSection name looked_up
  · exact .malformed fault

/-- A file that begins like an ELF file and is not opened is refused. -/
theorem ofBytes_error {path : String} {bytes : ByteArray} {error : Error}
    (h : ofBytes path bytes = .error error) (other : error ≠ .notElf) : error.Refusal := by
  rw [ofBytes] at h
  split at h
  · next unread =>
    cases h
    exact (readTables_error unread).resolve_left other
  · split at h
    · next missing =>
      cases h
      exact findIn_refusal (.inl rfl) missing
    · cases h

/-- A file that is opened, or refused, begins like an ELF file. -/
theorem startsLikeElf_of_ofBytes {path : String} {bytes : ByteArray}
    (h : ofBytes path bytes ≠ .error .notElf) : StartsLikeElf bytes := by
  by_contra no_elf
  exact h ((ofBytes_eq_notElf_iff path).mpr no_elf)

/-- Symbols that cannot be listed refuse the file. -/
theorem globalSymbols_error {file : ElfFile} {error : Error}
    (h : file.globalSymbols = .error error) : error.Refusal := by
  rw [globalSymbols] at h
  split at h
  · next unfound =>
    cases h
    exact findIn_refusal (.inr (.inr rfl)) unfound
  · cases h
    exact .malformed _
  · split at h
    · cases h
      exact .malformed _
    · split at h
      · cases h
        exact .malformed _
      · cases h

end ElfFile

/-- Exports that cannot be extracted refuse the file. -/
theorem extract_error {file : ElfFile} {error : Error} (h : extract file = .error error) :
    error.Refusal := by
  rw [extract] at h
  split at h
  · next unfound =>
    cases h
    exact ElfFile.findIn_refusal (.inr (.inl rfl)) unfound
  · cases h
  · split at h
    · next unread =>
      cases h
      exact ExportNames.parse_error unread
    · split at h
      · next unread =>
        cases h
        exact ElfFile.globalSymbols_error unread
      · split at h
        · cases h
          exact .malformed _
        · cases h

section Reading

variable {files : FileSystem} {path : String} {error : Error}

/-- Opening fails if the path has no content, or it refuses a file that begins like an ELF file. -/
theorem openElf_error (h : openElf files path = .error error) :
    (∃ reason, files path = .error reason ∧ error = .cannotOpen path reason) ∨
      ∃ bytes, files path = .ok bytes ∧ ElfFile.StartsLikeElf bytes ∧ error.Refusal := by
  rw [openElf, ElfFile.openAt] at h
  cases content : files path with
  | error reason =>
    rw [content] at h
    cases h
    exact .inl ⟨reason, rfl, rfl⟩
  | ok bytes =>
    rw [content] at h
    dsimp only at h
    split at h
    · cases h
    · cases h
    · next unusable other failed =>
      cases h
      have elf : ElfFile.ofBytes path bytes ≠ .error .notElf := by
        rw [failed]
        exact fun same => other (Except.error.inj same)
      exact .inr ⟨bytes, rfl, ElfFile.startsLikeElf_of_ofBytes elf,
        ElfFile.ofBytes_error failed other⟩

/-- Plain extraction fails in the same two ways. -/
theorem readExports_error (h : readExports files path = .error error) :
    (∃ reason, files path = .error reason ∧ error = .cannotOpen path reason) ∨
      ∃ bytes, files path = .ok bytes ∧ ElfFile.StartsLikeElf bytes ∧ error.Refusal := by
  rw [readExports] at h
  cases found : openElf files path with
  | error failure =>
    rw [found] at h
    cases h
    exact openElf_error found
  | ok opened =>
    rw [found] at h
    cases opened with
    | none => cases h
    | some file =>
      obtain ⟨bytes, content, opened⟩ := openElf_eq_some_iff.mp found
      have elf : ElfFile.ofBytes path bytes ≠ .error .notElf := by
        rw [opened]
        simp
      exact .inr ⟨bytes, content, ElfFile.startsLikeElf_of_ofBytes elf, extract_error h⟩

/-- A path that cannot be opened is the reason why there are no exports. -/
theorem readExports_of_unopened {reason : OpenFailure} (unopened : files path = .error reason) :
    readExports files path = .error (.cannotOpen path reason) := by
  rw [readExports, openElf, ElfFile.openAt, unopened]

/-- Confirming extraction fails where plain extraction does, and in the same way: the symbols that
it marks are those that were readable before. -/
theorem readConfirmedExports_eq_error_iff :
    readConfirmedExports files path = .error error ↔ readExports files path = .error error := by
  rw [readConfirmedExports, readExports]
  cases openElf files path with
  | error error => simp
  | ok opened =>
    cases opened with
    | none => simp
    | some file =>
      dsimp only
      cases extraction : extract file with
      | error error => simp
      | ok extracted =>
        cases extracted with
        | none => simp
        | some plain =>
          obtain ⟨-, newly, confirmed, -, confirmation, -⟩ := confirm_of_extract extraction
          simp [confirmation]

end Reading

/-- How the exports at a path may fail to be read. -/
structure FailsWithReason (files : FileSystem) (path : String)
    (result : Except Error (Option Registry)) : Prop where
  /-- The result says that the path cannot be opened exactly if it cannot. -/
  cannotOpen_iff : ∀ path' reason, result = .error (.cannotOpen path' reason) ↔
    path' = path ∧ files path = .error reason
  /-- A file that is not ELF is no failure, nor is an export that is listed again, and no export is
  listed without a name. -/
  never : ∀ error, result = .error error →
    error ≠ .notElf ∧ (∀ name, error ≠ .duplicateSymbol name) ∧ error ≠ .emptySymbolName
  /-- Every other failure is fatal and refuses a file that begins like an ELF file. -/
  refusal : ∀ error, result = .error error →
    (∀ path' reason, error ≠ .cannotOpen path' reason) →
      error.Refusal ∧ error.isFatal = true ∧
        ∃ bytes, files path = .ok bytes ∧ ElfFile.StartsLikeElf bytes

/-- Whatever fails where plain extraction does fails for its reasons. -/
theorem failsWithReason {files : FileSystem} {path : String}
    {result : Except Error (Option Registry)}
    (same : ∀ error, result = .error error ↔ readExports files path = .error error) :
    FailsWithReason files path result where
  cannotOpen_iff path' reason := by
    rw [same]
    constructor
    · intro h
      rcases readExports_error h with ⟨reason', unopened, here⟩ | ⟨-, -, -, refusal⟩
      · cases here
        exact ⟨rfl, unopened⟩
      · cases refusal
    · rintro ⟨rfl, unopened⟩
      exact readExports_of_unopened unopened
  never error h := by
    rcases readExports_error ((same error).mp h) with ⟨reason, -, rfl⟩ | ⟨-, -, -, refusal⟩
    · simp
    · cases refusal <;> simp
  refusal error h other := by
    rcases readExports_error ((same _).mp h) with ⟨reason, -, here⟩ | ⟨bytes, content, elf, refusal⟩
    · exact absurd here (other path reason)
    · exact ⟨refusal, refusal.isFatal, bytes, content, elf⟩

namespace Report

variable {files : FileSystem} {colors : Bool} {options : ReportOptions} {path : String}

/-- There is no report exactly if plain extraction fails, whether or not exports are confirmed. -/
theorem ofPath_eq_error_iff {error : Error} :
    ofPath files colors options path = .error error ↔ readExports files path = .error error := by
  have read : (if options.confirm then readConfirmedExports files path
      else readExports files path) = .error error ↔ readExports files path = .error error := by
    split
    · exact readConfirmedExports_eq_error_iff
    · rfl
  rw [ofPath, ← read]
  split <;> simp_all

/-- A file that is not ELF is reported as skipped. -/
theorem ofPath_of_not_elf {bytes : ByteArray} (content : files path = .ok bytes)
    (no_elf : ¬ ElfFile.StartsLikeElf bytes) :
    ofPath files colors options path = .ok (skipped colors path) := by
  have found := openElf_eq_none_iff.mpr ⟨bytes, content, no_elf⟩
  rw [ofPath, readConfirmedExports, readExports, found, ite_self]

end Report

/-- Plain and confirming extraction fail because the path cannot be opened, or they refuse a file
that begins like an ELF file, which is fatal. So there is no report and the run goes on exactly if
the path cannot be opened, and there is always a report on a file that is not ELF. -/
theorem failures_have_reason (files : FileSystem) (path : String) :
    FailsWithReason files path (readExports files path) ∧
    FailsWithReason files path (readConfirmedExports files path) ∧
    ∀ colors options,
      ((∃ error, Report.ofPath files colors options path = .error error ∧
          error.isFatal = false) ↔
        ∃ reason, files path = .error reason) ∧
      ∀ bytes, files path = .ok bytes → ¬ ElfFile.StartsLikeElf bytes →
        Report.ofPath files colors options path = .ok (Report.skipped colors path) := by
  refine ⟨failsWithReason fun _ => .rfl,
    failsWithReason fun _ => readConfirmedExports_eq_error_iff, fun colors options => ⟨?_, ?_⟩⟩
  · simp only [Report.ofPath_eq_error_iff]
    constructor
    · rintro ⟨error, failed, harmless⟩
      rcases readExports_error failed with ⟨reason, unopened, -⟩ | ⟨-, -, -, refusal⟩
      · exact ⟨reason, unopened⟩
      · rw [refusal.isFatal] at harmless
        cases harmless
    · rintro ⟨reason, unopened⟩
      exact ⟨_, readExports_of_unopened unopened, rfl⟩
  · intro bytes content no_elf
    exact Report.ofPath_of_not_elf content no_elf

/-- A text, an ELF file of 32 bits, and nothing else. -/
def threePaths : FileSystem := fun path =>
  if path = "notes.txt" then .ok (Utf8.encode "no module in here").toByteArray
  else if path = "old.ko" then .ok (ElfFile.magic ++ 1 :: List.replicate 11 0).toByteArray
  else .error .notFound

/-- The text is skipped, the missing file is a failure after which a run goes on, and the old file
is refused. -/
theorem threePaths_failures :
    Report.ofPath threePaths false ⟨true, true⟩ "notes.txt" =
      .ok (Report.skipped false "notes.txt") ∧
    (∃ error, Report.ofPath threePaths false ⟨true, true⟩ "gone.ko" = .error error ∧
      error.isFatal = false) ∧
    readConfirmedExports threePaths "old.ko" = .error (.unsupportedClass 1) ∧
    (Error.unsupportedClass 1).isFatal = true ∧
    ∃ bytes, threePaths "old.ko" = .ok bytes ∧ ElfFile.StartsLikeElf bytes := by
  have no_elf : ¬ ElfFile.StartsLikeElf (Utf8.encode "no module in here").toByteArray := by
    rw [← ElfFile.readHeader_eq_notElf_iff]
    decide +kernel
  obtain ⟨-, -, text⟩ := failures_have_reason threePaths "notes.txt"
  have skipped := (text false ⟨true, true⟩).2 _ rfl no_elf
  obtain ⟨-, -, missing⟩ := failures_have_reason threePaths "gone.ko"
  have gone := (missing false ⟨true, true⟩).1.mpr ⟨.notFound, rfl⟩
  have refused : readConfirmedExports threePaths "old.ko" = .error (.unsupportedClass 1) := rfl
  obtain ⟨-, old, -⟩ := failures_have_reason threePaths "old.ko"
  obtain ⟨-, fatal, elf⟩ := old.refusal _ refused (by simp)
  exact ⟨skipped, gone, refused, fatal, elf⟩

end KernelExports
