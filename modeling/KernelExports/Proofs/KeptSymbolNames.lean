import KernelExports.Proofs.AppendedData
import KernelExports.Proofs.SymbolEnumeration

/-!
# The symbol names that a file keeps

A file looks up its symbol names once, when it is opened, and takes them from there whenever its
symbols are asked for. On a machine it does not keep the names but the range where they stand.
Either way it gives what a lookup would give at that time, so nobody can tell whether the names were
kept or are looked up again. In an open file this lookup does not fail.
-/

namespace KernelExports

namespace ElfFile

/-- The items of the symbol table, with both sections looked up anew. -/
def freshSymbols (file : ElfFile) :
    Except Error (List (Except Malformation GlobalSymbol)) :=
  match file.find symbolSection with
  | .error error => .error error
  | .ok none => .error (.malformed (.missingSection symbolSection))
  | .ok (some symbols) =>
    match file.find symbolNameSection with
    | .error error => .error error
    | .ok none => .error (.malformed (.missingSection symbolNameSection))
    | .ok (some names) =>
      (KernelExports.globalSymbols symbols.data names.data).mapError .malformed

/-- The symbol names that a file keeps are those that it would find. -/
structure KeepsNames (file : ElfFile) : Prop where
  /-- The lookup of the symbol names does not fail. The file has kept some exactly if it finds a
  section, and they are the content of this section. -/
  lookup : ∃ found, file.find symbolNameSection = .ok found ∧
    file.symbolNames = found.map Section.data
  /-- The symbols are those of two fresh lookups, and fail as these do. -/
  fresh : file.globalSymbols = file.freshSymbols
  /-- All names are those that stand in the section that a lookup finds. -/
  resolves : ∀ items, file.globalSymbols = .ok items →
    ∃ symbols names indices, file.find symbolSection = .ok (some symbols) ∧
      file.find symbolNameSection = .ok (some names) ∧
      SymbolTable.Itemises symbols.data names.data indices items

/-- A file that is opened keeps the symbol names that a lookup finds. -/
theorem keepsNames {path : String} {bytes : ByteArray} {file : ElfFile}
    (opened : ofBytes path bytes = .ok file) : file.KeepsNames := by
  obtain ⟨-, -, -, found, lookup, kept⟩ := ofBytes_eq_ok_iff.mp opened
  refine ⟨⟨found, lookup, kept⟩, ?_, fun items listed => ?_⟩
  · rw [globalSymbols, freshSymbols, lookup, kept]
    cases file.find symbolSection with
    | error error => rfl
    | ok symbols =>
      cases symbols with
      | none => rfl
      | some symbols =>
        cases found with
        | none => rfl
        | some names =>
          dsimp only [Option.map_some]
          cases KernelExports.globalSymbols symbols.data names.data <;> rfl
  · obtain ⟨_, content, held, some_kept, read⟩ := globalSymbols_eq_ok_iff.mp listed
    obtain ⟨symbols, located, rfl⟩ := holds_iff_find.mp held
    obtain ⟨names, located', rfl⟩ :=
      holds_iff_find.mp ((symbolNames_eq_some_iff opened).mp some_kept)
    obtain ⟨-, rfl⟩ := KernelExports.globalSymbols_eq_ok_iff.mp read
    obtain ⟨indices, itemises⟩ := SymbolTable.exists_itemises symbols.data names.data
    exact ⟨symbols, names, indices, located, located', itemises⟩

end ElfFile

namespace Machine.File

/-- The iterator over the symbols, with both sections looked up anew. -/
def freshSymbols (file : File) : Run (Except Error Symbols) := do
  match ← file.find symbolSection with
  | .error error => return .error error
  | .ok none => return .error (.malformed (.missingSection symbolSection))
  | .ok (some symbols) =>
    match ← file.find symbolNameSection with
    | .error error => return .error error
    | .ok none => return .error (.malformed (.missingSection symbolNameSection))
    | .ok (some names) => return (Symbols.start symbols.data names.data).mapError .malformed

/-- The range that a file keeps is the one where it would find the symbol names. -/
structure KeepsNames (file : File) : Prop where
  /-- The lookup of the symbol names neither traps nor fails. The file has kept a range exactly if
  it finds a section, and the content of this section stands in the range. -/
  lookup : ∃ found, file.find symbolNameSection = .ok (.ok found) ∧
    file.keptNames = .ok (found.map Section.data)
  /-- An iterator over the symbols is had as from two fresh lookups. -/
  fresh : file.globalSymbols = file.freshSymbols
  /-- The names that an iterator gives are those that stand in the section that a lookup finds. -/
  resolves : ∀ iterator, file.globalSymbols = .ok (.ok iterator) →
    ∃ symbols names indices items, file.find symbolSection = .ok (.ok (some symbols)) ∧
      file.find symbolNameSection = .ok (.ok (some names)) ∧
      SymbolTable.Itemises symbols.data names.data indices items ∧
      Drains Symbols.next iterator items

/-- What holds of the kept names of a file holds of its counterpart on a machine. -/
theorem Represents.keepsNames {file : File} {elf : ElfFile} (same : file.Represents elf)
    (keeps : elf.KeepsNames) : file.KeepsNames := by
  obtain ⟨found, lookup, kept⟩ := keeps.lookup
  have lookup' : file.find symbolNameSection = .ok (.ok found) := by rw [same.find_eq, lookup]
  have kept' : file.keptNames = .ok (found.map Section.data) := by rw [same.kept, kept]
  refine ⟨⟨found, lookup', kept'⟩, ?_, fun iterator started => ?_⟩
  · rw [globalSymbols, freshSymbols, lookup', kept', same.find_eq, ok_bind]
    cases elf.find symbolSection with
    | error error => rfl
    | ok symbols =>
      cases symbols with
      | none => rfl
      | some symbols =>
        cases found with
        | none => rfl
        | some names =>
          simp only [Option.map_some, ok_bind]
          cases Symbols.start symbols.data names.data <;> rfl
  · rcases same.globalSymbols_cases with ⟨error, failed, -⟩ | ⟨iterator', started', listed, valid⟩
    · rw [failed] at started
      cases started
    · rw [started'] at started
      cases started
      obtain ⟨symbols, names, indices, located, located', itemises⟩ := keeps.resolves _ listed
      exact ⟨symbols, names, indices, iterator.items, by rw [same.find_eq, located],
        by rw [same.find_eq, located'], itemises, (Symbols.drains_iff valid).mpr rfl⟩

end Machine.File

/-- An open file gives the symbol names that it would find, and its symbols as if it had found the
names only then. On a machine, where it keeps a range, it does the same, and no step traps. -/
theorem names_kept_as_found {path : String} {bytes : ByteArray} {file : ElfFile}
    (opened : ElfFile.ofBytes path bytes = .ok file) :
    file.KeepsNames ∧
    (bytes.size < 2 ^ 63 →
      ∃ onMachine, Machine.File.ofBytes bytes = .ok (.ok onMachine) ∧ onMachine.KeepsNames ∧
        onMachine.keptNames = .ok file.symbolNames) := by
  have keeps := ElfFile.keepsNames opened
  refine ⟨keeps, fun small => ?_⟩
  rcases Machine.File.ofBytes_cases small path with
    ⟨error, -, refused⟩ | ⟨onMachine, elf, opened', same, represents⟩
  · rw [opened] at refused
    cases refused
  · rw [opened, Except.ok.injEq] at same
    subst same
    exact ⟨onMachine, opened', represents.keepsNames keeps, represents.kept⟩

/-- The symbols of a module with one export are those of fresh lookups, and the range that a machine
has kept holds the names that it finds. -/
theorem signedModule_keeps_names :
    ElfFile.ofBytes "plain.ko" signedModule.file =
      .ok (signedModule.opened [⟨"alpha", 1, 16⟩] "plain.ko") ∧
    (signedModule.opened [⟨"alpha", 1, 16⟩] "plain.ko").freshSymbols =
      .ok [.ok ⟨"alpha", 16, .global⟩] ∧
    signedModule.file.size < 2 ^ 63 ∧
    ∃ onMachine found, Machine.File.ofBytes signedModule.file = .ok (.ok onMachine) ∧
      onMachine.find symbolNameSection = .ok (.ok (some found)) ∧
      found.data = (SymbolImage.names [⟨"alpha", 1, 16⟩]).toByteArray ∧
      onMachine.keptNames = .ok (some found.data) := by
  have contains := signedModule_contains
  have opened := contains.ofBytes_file "plain.ko"
  have small := contains.size_file_lt
  obtain ⟨keeps, machine⟩ := names_kept_as_found opened
  obtain ⟨onMachine, opened', keeps', kept⟩ := machine small
  obtain ⟨found, lookup, kept'⟩ := keeps'.lookup
  have symbols := contains.globalSymbols_opened "plain.ko"
  rw [keeps.fresh] at symbols
  cases found with
  | none =>
    rw [kept] at kept'
    cases kept'
  | some found =>
    have content : found.data = (SymbolImage.names [⟨"alpha", 1, 16⟩]).toByteArray := by
      rw [kept, Option.map_some, Except.ok.injEq] at kept'
      exact (Option.some.inj kept').symm
    exact ⟨opened, symbols, small, onMachine, found, opened', lookup, content, kept'⟩

end KernelExports
