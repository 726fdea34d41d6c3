/-!
# Defects of UTF-8 text

A byte sequence either is the UTF-8 spelling of a string or has a first place where it stops being
one. `decode` gives the string in the first case and names the place in the second. The place is
found by `scan`, which walks over the bytes once and knows at each of them which ranges the next
bytes have to fall into: the table of well-formed sequences, which leaves out overlong spellings,
surrogates and everything above U+10FFFF.
-/

namespace KernelExports.Utf8

/-- How a byte sequence stops being UTF-8. Positions count from its first byte. -/
inductive Defect where
  /-- The `length` bytes at `start` begin no character, whatever follows them. -/
  | malformed (start length : Nat)
  /-- The bytes end inside the character that begins at `start`. -/
  | truncated (start : Nat)
  deriving DecidableEq, Repr

/-- The wording of a defect. -/
def Defect.message : Defect → String
  | malformed start length =>
    s!"invalid utf-8 sequence of {length} bytes from index {start}"
  | truncated start => s!"incomplete utf-8 byte sequence from index {start}"

/-- The first and the last byte of a range. -/
abbrev Range := UInt8 × UInt8

/-- Every continuation byte. -/
def continuation : Range := (0x80, 0xbf)

/-- The ranges for the bytes that follow a given first byte, and nothing for a byte that begins no
character. The first range is narrower where a full one would admit an overlong spelling (after
`0xe0` and `0xf0`), a surrogate (after `0xed`) or a number above U+10FFFF (after `0xf4`). -/
def following? (first : UInt8) : Option (List Range) :=
  if first < 0x80 then some []
  else if first < 0xc2 then none
  else if first < 0xe0 then some [continuation]
  else if first = 0xe0 then some [(0xa0, 0xbf), continuation]
  else if first = 0xed then some [(0x80, 0x9f), continuation]
  else if first < 0xf0 then some [continuation, continuation]
  else if first = 0xf0 then some [(0x90, 0xbf), continuation, continuation]
  else if first < 0xf4 then some [continuation, continuation, continuation]
  else if first = 0xf4 then some [(0x80, 0x8f), continuation, continuation]
  else none

/-- The first defect of a byte sequence of which `position` bytes have been read: the character
that began at `start` still needs a byte in each of the ranges. -/
def scanFrom : (needed : List Range) → (start position : Nat) → List UInt8 → Option Defect
  | [], _, _, [] => none
  | _ :: _, start, _, [] => some (.truncated start)
  | [], _, position, byte :: rest =>
    match following? byte with
    | some needed => scanFrom needed position (position + 1) rest
    | none => some (.malformed position 1)
  | (low, high) :: needed, start, position, byte :: rest =>
    if low ≤ byte ∧ byte ≤ high then scanFrom needed start (position + 1) rest
    else some (.malformed start (position - start))

/-- The first defect of a byte sequence. -/
def scan (bytes : List UInt8) : Option Defect :=
  scanFrom [] 0 0 bytes

/-- The bytes that spell a string. -/
def encode (text : String) : List UInt8 :=
  text.toUTF8.data.toList

/-- The string that the bytes spell, or the first place where they spell none. -/
def decode (bytes : List UInt8) : Except Defect String :=
  match String.fromUTF8? bytes.toByteArray with
  | some text => .ok text
  | none => .error ((scan bytes).getD (.truncated bytes.length))

end KernelExports.Utf8
