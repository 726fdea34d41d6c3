import KernelExports.Registry

/-!
# The list of exported names

The content of the section that lists the exported names is a sequence of byte strings, each ended
by a NUL byte. Padding between them, which is any number of further NUL bytes, does not count, so
the index of a name is its position among the non-empty strings. The index is the position in the
export table of the kernel; where the name stands in the section does not matter.

`segments` finds the strings, `split` reads them as text and numbers them, and `parse` collects
them into a registry. A name can be listed again, as the namespace of several exports is; the first
listing counts, and a repeated one takes up an index all the same.
-/

namespace KernelExports.ExportNames

/-- A non-empty byte string between NUL bytes. -/
structure Segment where
  /-- Position of the first byte. -/
  offset : Nat
  /-- The bytes, without the NUL byte at the end. -/
  bytes : List UInt8
  deriving DecidableEq, Repr

/-- The segment that consists of the given bytes with their positions, unless there are none. -/
def Segment.ofPlaced? : List (UInt8 × Nat) → Option Segment
  | [] => none
  | (byte, offset) :: rest => some ⟨offset, byte :: rest.map Prod.fst⟩

/-- The non-empty strings between the NUL bytes of a byte sequence, in order. -/
def segments (bytes : List UInt8) : List Segment :=
  (bytes.zipIdx.splitOnP fun placed => placed.1 == 0).filterMap Segment.ofPlaced?

/-- A listed name with its index. -/
structure ExportName where
  /-- The name, never empty. -/
  name : String
  /-- Its position among the listed names, repetitions included. -/
  index : Nat
  deriving DecidableEq, Repr

/-- The text of a segment, under the given index. -/
def Segment.read (segment : Segment) (index : Nat) : Except Malformation ExportName :=
  match Utf8.decode segment.bytes with
  | .ok name => .ok ⟨name, index⟩
  | .error defect => .error (.exportNameEncoding segment.offset defect)

/-- The listed names in order, where a name that is not UTF-8 is an item that takes up an index. -/
def split (data : ByteArray) : Except Malformation (List (Except Malformation ExportName)) :=
  if data.data.back? = some 0 then
    .ok ((segments data.data.toList).zipIdx.map fun (segment, index) => segment.read index)
  else .error .exportsUnterminated

/-- Adds a listed name to a registry, unless the registry already has the name. -/
def enter (registry : Registry) (item : ExportName) : Except Error Registry :=
  match registry.insert item.name (UInt64.ofNat item.index) with
  | .ok extended => .ok extended
  | .error (.duplicateSymbol _) => .ok registry
  | .error error => .error error

/-- Adds listed names to a registry, up to the first one that cannot be read. -/
def enterAll (registry : Registry) :
    List (Except Malformation ExportName) → Except Error Registry
  | [] => .ok registry
  | .error fault :: _ => .error (.malformed fault)
  | .ok item :: rest =>
    match enter registry item with
    | .ok extended => enterAll extended rest
    | .error error => .error error

/-- The registry of the listed names, each with the index of its first listing. -/
def parse (data : ByteArray) : Except Error Registry :=
  match split data with
  | .error fault => .error (.malformed fault)
  | .ok items => enterAll .empty items

end KernelExports.ExportNames
