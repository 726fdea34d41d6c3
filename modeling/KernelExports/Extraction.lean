import KernelExports.Elf.File
import KernelExports.ExportNames

/-!
# Extracting the exported symbols of a kernel binary

The exported symbols of an ELF file are the names listed in its export section. A file that is not
ELF, or lists no exports, has no registry, which is no error.

An export is confirmed by a global or weak symbol of the same name in the symbol table of a file;
the registry then marks it. The symbol table has to be readable to its end even where nothing is
confirmed, so plain and confirming extraction fail on the same files.
-/

namespace KernelExports

/-- The exported symbols of an ELF file, or nothing if it lists none. -/
def extract (file : ElfFile) : Except Error (Option Registry) :=
  match file.find exportSection with
  | .error error => .error error
  | .ok none => .ok none
  | .ok (some listed) =>
    match ExportNames.parse listed.data with
    | .error error => .error error
    | .ok registry =>
      match file.globalSymbols with
      | .error error => .error error
      | .ok items =>
        match firstError? items with
        | some fault => .error (.malformed fault)
        | none => .ok (some registry)

/-- Marks the records of the given symbols. -/
def markAll (registry : Registry) (symbols : List GlobalSymbol) : Registry :=
  symbols.foldl (fun marked symbol => marked.mark symbol.name) registry

/-- Marks every record that a global or weak symbol of the file confirms, and counts the records
that were not marked before. Marks that are set before an error stay. -/
def confirm (file : ElfFile) (registry : Registry) : Except Error Nat × Registry :=
  match file.globalSymbols with
  | .error error => (.error error, registry)
  | .ok items =>
    let marked := markAll registry (beforeError items)
    match firstError? items with
    | some fault => (.error (.malformed fault), marked)
    | none => (.ok (marked.markCount - registry.markCount), marked)

/-- The ELF file at a path, or nothing if the file there is not ELF. -/
def openElf (files : FileSystem) (path : String) : Except Error (Option ElfFile) :=
  match ElfFile.openAt files path with
  | .ok file => .ok (some file)
  | .error .notElf => .ok none
  | .error error => .error error

/-- The exported symbols of the file at a path, or nothing if it is not ELF or lists none. -/
def readExports (files : FileSystem) (path : String) : Except Error (Option Registry) :=
  match openElf files path with
  | .error error => .error error
  | .ok none => .ok none
  | .ok (some file) => extract file

/-- The exported symbols of the file at a path, those marked that its symbol table confirms. -/
def readConfirmedExports (files : FileSystem) (path : String) :
    Except Error (Option Registry) :=
  match openElf files path with
  | .error error => .error error
  | .ok none => .ok none
  | .ok (some file) =>
    match extract file with
    | .error error => .error error
    | .ok none => .ok none
    | .ok (some registry) =>
      match confirm file registry with
      | (.error error, _) => .error error
      | (.ok _, confirmed) => .ok (some confirmed)

end KernelExports
