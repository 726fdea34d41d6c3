import Std.Data.ExtTreeMap
import KernelExports.Error

/-!
# Registries of symbols

A registry holds records under their names, at most one per name and none under the empty name. A
record can be marked and can carry a link. The registry counts its marked records; the count is
kept up to date by the operations and never recomputed, so nothing else may change a mark.

An operation that changes nothing says why: `insert` and `insertCopy` with an error, `mark?`,
`setLink?` and `remove?` with `none`, which means that there is no record of the name. Two
registries with the same records and the same count are equal, however they came about.
-/

namespace KernelExports

/-- One exported, or possibly exported, symbol. -/
structure Record where
  /-- The name, under which a registry holds the record. -/
  name : String
  /-- The position in the list of exported names, or any number that the caller prefers. -/
  value : UInt64
  /-- Whether the symbol has been marked. -/
  marked : Bool
  /-- A text that the caller attached. -/
  link : Option String
  deriving DecidableEq, Repr

/-- Records ordered by value, those of equal value by name. Names are compared by code points,
which is the order of their UTF-8 bytes. -/
def Record.before (first second : Record) : Bool :=
  first.value < second.value ∨ first.value = second.value ∧ first.name ≤ second.name

/-- Records by name, with the number of those that are marked. -/
structure Registry where
  /-- The records, each under its own name. -/
  records : Std.ExtTreeMap String Record
  /-- The number of marked records. -/
  markCount : Nat

namespace Registry

/-- The registry without records. -/
def empty : Registry :=
  ⟨∅, 0⟩

instance : Inhabited Registry :=
  ⟨empty⟩

/-- The record of a name. -/
def get? (registry : Registry) (name : String) : Option Record :=
  registry.records[name]?

/-- Whether there is a record of a name. -/
def contains (registry : Registry) (name : String) : Bool :=
  (registry.get? name).isSome

/-- The number of records. -/
def size (registry : Registry) : Nat :=
  registry.records.size

/-- All records, ordered by name. -/
def toList (registry : Registry) : List Record :=
  registry.records.toList.map Prod.snd

/-- Adds a copy of a record, of this registry or of another one, unless its name is empty or taken.
Name, value and link are copied, the mark is not. -/
def insertCopy (registry : Registry) (record : Record) : Except Error Registry :=
  if record.name = "" then .error .emptySymbolName
  else if registry.contains record.name then .error (.duplicateSymbol record.name)
  else
    .ok { registry with
      records := registry.records.insert record.name { record with marked := false } }

/-- Adds an unmarked record without a link, unless its name is empty or taken. -/
def insert (registry : Registry) (name : String) (value : UInt64) : Except Error Registry :=
  registry.insertCopy ⟨name, value, false, none⟩

/-- Marks the record of a name. -/
def mark? (registry : Registry) (name : String) : Option Registry :=
  match registry.get? name with
  | none => none
  | some record =>
    if record.marked then some registry
    else
      some ⟨registry.records.insert name { record with marked := true }, registry.markCount + 1⟩

/-- Marks the record of a name, if there is one. -/
def mark (registry : Registry) (name : String) : Registry :=
  (registry.mark? name).getD registry

/-- Replaces the link of the record of a name; `none` clears it. -/
def setLink? (registry : Registry) (name : String) (link : Option String) : Option Registry :=
  match registry.get? name with
  | none => none
  | some record =>
    some { registry with records := registry.records.insert name { record with link } }

/-- Takes the record of a name out of the registry. -/
def remove? (registry : Registry) (name : String) : Option (Record × Registry) :=
  match registry.get? name with
  | none => none
  | some record =>
    some (record,
      ⟨registry.records.erase name,
        if record.marked then registry.markCount - 1 else registry.markCount⟩)

/-- The names and values of those records of a list that are not marked, in the order of the
list. -/
def unmarkedOf (records : List Record) : List (String × UInt64) :=
  (records.filter fun record => !record.marked).map fun record => (record.name, record.value)

/-- The names and values of the records that are not marked, ordered by name. -/
def unmarked (registry : Registry) : List (String × UInt64) :=
  unmarkedOf registry.toList

/-- Hands the name and the value of each record of a list that is not marked to `visitor`, in the
order of the list. -/
def visitUnmarked {m : Type → Type} [Monad m] (visitor : String → UInt64 → m Unit) :
    List Record → m Unit
  | [] => pure ()
  | record :: rest =>
    if record.marked then visitUnmarked visitor rest
    else do
      visitor record.name record.value
      visitUnmarked visitor rest

/-- The given records, ordered by value and then by name. -/
def sortByValue (records : List Record) : List Record :=
  records.mergeSort Record.before

/-- All records, ordered by value and then by name. -/
def sortedByValue (registry : Registry) : List Record :=
  sortByValue registry.toList

end Registry

end KernelExports
