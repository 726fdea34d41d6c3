import KernelExports.Extraction
import KernelExports.Style

/-!
# Diagnostics

Notes on what is done with a file: which sections are found, which names and symbols, and what is
passed over. The notes are computed from the same results as the answer, so they never influence
it. A reader chooses how many of them are shown by a level; each level shows the levels before it.
-/

namespace KernelExports

/-- How much a note matters. -/
inductive Level where
  | error
  | warn
  | info
  | debug
  | trace
  deriving DecidableEq, Repr

namespace Level

/-- The place of a level in the order from what matters most to what matters least. -/
def rank : Level → Nat
  | error => 0
  | warn => 1
  | info => 2
  | debug => 3
  | trace => 4

/-- The name of a level, as it is shown. -/
def tag : Level → String
  | error => "error"
  | warn => "warn"
  | info => "info"
  | debug => "debug"
  | trace => "trace"

/-- The style of the name. -/
def style : Level → Style
  | error => .boldRed
  | warn => .boldYellow
  | info => .green
  | debug => .blue
  | trace => .dimmed

end Level

/-- A note on the work on a file. -/
structure Note where
  /-- How much it matters. -/
  level : Level
  /-- What it says. -/
  text : String
  deriving DecidableEq, Repr

namespace Note

/-- The line for a note. -/
def line (colors : Bool) (note : Note) : String :=
  "[" ++ note.level.style.paint colors note.level.tag ++ "] " ++ note.text ++ "\n"

/-- The lines for those notes that a level shows. -/
def lines (colors : Bool) (shown : Level) (notes : List Note) : String :=
  String.join
    ((notes.filter fun note => note.level.rank ≤ shown.rank).map fun note => note.line colors)

end Note

namespace Diagnostics

/-- A number in base 16. -/
def hexadecimal (number : Nat) : String :=
  String.ofList (Nat.toDigits 16 number)

/-- The notes on looking up a section. -/
def onFind (path : String) (sections : SectionTable) (name : String) : List Note :=
  match sections.locate name with
  | .ok (some header) =>
    [⟨.trace, s!"Found section {name} in {path} (type: {header.type.toNat}, " ++
      s!"offset: 0x{hexadecimal header.offset.toNat}, " ++
      s!"size: 0x{hexadecimal header.size.toNat})"⟩]
  | _ => []

/-- The notes on opening a file. -/
def onOpen (files : FileSystem) (path : String) : List Note :=
  match files path with
  | .error _ => []
  | .ok bytes =>
    match ElfFile.readTables bytes with
    | .error .notElf => [⟨.debug, s!"{path} is not an ELF file, skipping"⟩]
    | .error _ => []
    | .ok (_, sections) =>
      onFind path sections symbolNameSection ++
        match ElfFile.findIn bytes sections symbolNameSection with
        | .ok none => [⟨.debug, s!"{path} has no {symbolNameSection} section"⟩]
        | _ => []

/-- The notes on names that are listed again, up to the first name that cannot be read. -/
def onRepeats (registry : Registry) : List ExportNames.ExportName → List Note
  | [] => []
  | item :: rest =>
    if registry.contains item.name then
      ⟨.debug, s!"{item.name} is listed again at index {item.index}, keeping the first one"⟩ ::
        onRepeats registry rest
    else
      match ExportNames.enter registry item with
      | .ok extended => onRepeats extended rest
      | .error _ => []

/-- The notes on reading the list of exported names. -/
def onParse (data : ByteArray) : List Note :=
  match ExportNames.split data with
  | .error _ => []
  | .ok items =>
    onRepeats .empty (beforeError items) ++
      match ExportNames.parse data with
      | .error _ => []
      | .ok registry =>
        [⟨.debug, s!"Parsed {registry.size} symbols out of {data.size} bytes " ++
          s!"of {exportSection}"⟩]

/-- The note on a global symbol. -/
def onSymbol (symbol : GlobalSymbol) : Note :=
  ⟨.debug, s!"Symbol {symbol.name}, value {hexadecimal symbol.value.toNat}, " ++
    s!"binding {symbol.binding.code.toNat}"⟩

/-- The notes on walking over the symbol table. -/
def onSymbols (file : ElfFile) : List Note :=
  match file.globalSymbols with
  | .error _ => []
  | .ok items => (beforeError items).map onSymbol

/-- The notes on extracting the exported symbols. -/
def onExtract (file : ElfFile) : List Note :=
  onFind file.path file.sections exportSection ++
    match file.find exportSection with
    | .error _ => []
    | .ok none => [⟨.debug, s!"{file.path} has no {exportSection} section"⟩]
    | .ok (some listed) =>
      onParse listed.data ++
        match ExportNames.parse listed.data with
        | .error _ => []
        | .ok _ => onFind file.path file.sections symbolSection ++ onSymbols file

/-- The notes on confirming exported symbols. -/
def onConfirm (file : ElfFile) (registry : Registry) : List Note :=
  onFind file.path file.sections symbolSection ++
    match confirm file registry with
    | (.error _, _) => []
    | (.ok confirmed, marked) =>
      [⟨.debug, s!"{file.path}: {confirmed} of {marked.size} exported symbols confirmed"⟩]

/-- The note on a file that has been dealt with. -/
def onClose (file : ElfFile) : Note :=
  ⟨.trace, s!"Closing {file.path}"⟩

/-- The notes on reading the exported symbols of the file at a path. -/
def onRead (files : FileSystem) (confirming : Bool) (path : String) : List Note :=
  onOpen files path ++
    match openElf files path with
    | .error _ | .ok none => []
    | .ok (some file) =>
      onExtract file ++
        match extract file with
        | .error _ => []
        | .ok none => [onClose file]
        | .ok (some registry) =>
          if confirming then
            onConfirm file registry ++
              match confirm file registry with
              | (.error _, _) => []
              | (.ok _, _) => [onClose file]
          else [onClose file]

end Diagnostics

end KernelExports
