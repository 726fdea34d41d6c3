/-!
# String tables

A string table of an ELF file is a sequence of byte strings, each ended by a NUL byte. An entry is
addressed by the position of its first byte, so entries may share their tails.
-/

namespace KernelExports.StringTable

/-- The reasons for which a position addresses no entry. -/
inductive Fault where
  /-- The position lies behind the last byte of the table. -/
  | outOfRange
  /-- No NUL byte follows the position. -/
  | unterminated
  deriving DecidableEq, Repr

/-- The entry at `offset`: the bytes from there up to the first NUL byte. -/
def entry (table : ByteArray) (offset : Nat) : Except Fault (List UInt8) :=
  if offset < table.size then
    match table.findIdx? (· == 0) offset with
    | some stop => .ok (table.extract offset stop).data.toList
    | none => .error .unterminated
  else .error .outOfRange

end KernelExports.StringTable
