import KernelExports.Error
import KernelExports.Elf.StringTable
import KernelExports.Elf.SymbolRecord

/-!
# Global symbols

The entries of a symbol table that can back an export: those with a global or weak binding and a
name. An entry whose name cannot be read is an item of its own, and the entries behind it are
still there; who walks over the items decides whether to stop at it.
-/

namespace KernelExports

/-- A named global or weak symbol. -/
structure GlobalSymbol where
  /-- The name. It is empty where the symbol points at an empty entry of the string table. -/
  name : String
  /-- Address, or offset in the section that defines the symbol. -/
  value : UInt64
  /-- Who can see the symbol. -/
  binding : Binding
  deriving DecidableEq, Repr

namespace GlobalSymbol

/-- The name at a position of the symbol string table. -/
def nameAt (names : ByteArray) (offset : UInt32) : Except Malformation String :=
  match StringTable.entry names offset.toNat with
  | .error .outOfRange => .error (.symbolNameOffset offset names.size)
  | .error .unterminated => .error (.symbolNameUnterminated offset)
  | .ok bytes =>
    match Utf8.decode bytes with
    | .ok name => .ok name
    | .error defect => .error (.symbolNameEncoding offset defect)

/-- The item for a record, if its binding and its name let it back an export. -/
def ofRecord? (names : ByteArray) (record : SymbolRecord) :
    Option (Except Malformation GlobalSymbol) :=
  match Binding.ofInfo? record.info with
  | none => none
  | some binding =>
    if record.name = 0 then none
    else
      match nameAt names record.name with
      | .ok name => some (.ok ⟨name, record.value, binding⟩)
      | .error fault => some (.error fault)

end GlobalSymbol

/-- The items of a symbol table, in table order. The first record is reserved. -/
def globalSymbols (symbols names : ByteArray) :
    Except Malformation (List (Except Malformation GlobalSymbol)) :=
  if symbols.size % 24 = 0 then
    .ok ((records SymbolRecord symbols).tail.filterMap (GlobalSymbol.ofRecord? names))
  else .error (.symbolTableSize symbols.size)

/-- The results before the first error. -/
def beforeError {ε α : Type} (items : List (Except ε α)) : List α :=
  (items.takeWhile Except.isOk).filterMap Except.toOption

/-- The first error. -/
def firstError? {ε α : Type} (items : List (Except ε α)) : Option ε :=
  items.findSome? fun
    | .error fault => some fault
    | .ok _ => none

/-- Hands each result to `handler`, up to the first error. -/
def visitItems {m : Type → Type} [Monad m] {ε α : Type} (handler : α → m Unit) :
    List (Except ε α) → m (Except ε Unit)
  | [] => pure (.ok ())
  | .error fault :: _ => pure (.error fault)
  | .ok result :: rest => do
    handler result
    visitItems handler rest

/-- Hands each global symbol to `handler`, up to the first entry whose name cannot be read. -/
def visitGlobalSymbols {m : Type → Type} [Monad m] (symbols names : ByteArray)
    (handler : GlobalSymbol → m Unit) : m (Except Malformation Unit) :=
  match globalSymbols symbols names with
  | .error fault => pure (.error fault)
  | .ok items => visitItems handler items

end KernelExports
