import KernelExports.Proofs.ExportListing
import KernelExports.Proofs.MachineSplitter

/-!
# What a splitter yields

A splitter is made for every list that ends in a NUL byte and for no other. Asked for its next item
until there is none, it comes to an end, and it has then given one item for each maximal run of
bytes other than NUL, in order. The index of an item is its place among all of them, whether or not
the runs before it are text.
-/

namespace KernelExports

open ExportNames

namespace ExportNames

/-- There are no bytes, or the last of them is not a NUL byte. -/
def Unterminated (data : ByteArray) : Prop :=
  data.size = 0 ∨ ∃ last, data.data.back? = some last ∧ last ≠ 0

/-- A list is unterminated if its last byte is not there or no NUL byte. -/
theorem unterminated_iff {data : ByteArray} : Unterminated data ↔ data.data.back? ≠ some 0 := by
  have empty : data.size = 0 ↔ data.data.back? = none := by
    rw [Array.back?_eq_none_iff, ← Array.size_eq_zero_iff, ByteArray.size_data]
  rw [Unterminated, empty]
  cases data.data.back? <;> simp

/-- The bytes of the segment spell a text. -/
def Segment.IsText (segment : Segment) : Prop :=
  ∃ name, Utf8.encode name = segment.bytes

/-- The item that a segment gives under an index. -/
inductive Segment.Gives (segment : Segment) (index : Nat) :
    Except Malformation ExportName → Prop where
  /-- The text of the segment. -/
  | text (name : String) (spelled : Utf8.encode name = segment.bytes) :
    Gives segment index (.ok ⟨name, index⟩)
  /-- A fault, in words that say where the segment starts. -/
  | fault (fault : Malformation) (defect : Utf8.Defect) (no_text : ¬ segment.IsText)
    (found : Utf8.decode segment.bytes = .error defect)
    (cause : fault = .exportNameEncoding segment.offset defect)
    (wording : fault.message =
      s!"Malformed {exportSection} section: name at offset {segment.offset} is not valid UTF-8: " ++
        defect.message) :
    Gives segment index (.error fault)

/-- The items are those of the segments, one for each of them, under their indices. -/
structure Itemise (segments : List Segment) (items : List (Except Malformation ExportName)) :
    Prop where
  /-- There are as many items as segments. -/
  length : items.length = segments.length
  /-- Each segment gives the item in its place. -/
  gives : ∀ index (segment : Segment) item, segments[index]? = some segment →
    items[index]? = some item → segment.Gives index item

/-- Bytes are decoded or they are no text. -/
theorem Segment.not_isText_iff {segment : Segment} :
    ¬ segment.IsText ↔ ∃ defect, Utf8.decode segment.bytes = .error defect := by
  simp only [IsText, ← Utf8.decode_eq_ok_iff]
  cases Utf8.decode segment.bytes <;> simp

/-- A segment gives what is read of it. -/
theorem Segment.gives_read (segment : Segment) (index : Nat) :
    segment.Gives index (segment.read index) := by
  rw [read]
  cases decoded : Utf8.decode segment.bytes with
  | ok name => exact .text name (Utf8.decode_eq_ok_iff.mp decoded)
  | error defect => exact .fault _ defect (not_isText_iff.mpr ⟨defect, decoded⟩) decoded rfl rfl

/-- Reading segments in order gives their items. -/
theorem itemise_read (segments : List Segment) :
    Itemise segments (segments.zipIdx.map fun (segment, index) => segment.read index) where
  length := by rw [List.length_map, List.length_zipIdx]
  gives index segment item stands given := by
    have read : segment.read index = item := by
      rw [List.getElem?_map, List.getElem?_zipIdx, stands, Nat.zero_add] at given
      exact Option.some.inj given
    rw [← read]
    exact segment.gives_read index

end ExportNames

/-- A splitter that has not lost its way comes to the end and gives its items. -/
theorem Machine.Splitter.drains_iff {splitter : Splitter} (valid : splitter.Valid)
    {given : List (Except Malformation ExportName)} :
    Drains next splitter given ↔ given = splitter.items :=
  drains_iff_of_step (fun _ => next_eq) valid

/-- A list of exports is refused exactly if it is empty or does not end in a NUL byte. The splitter
of any other list comes to an end, and it gives what the list is split into: the items of its
maximal runs of bytes other than NUL, in order. -/
theorem split_yields_segments (data : ByteArray) (small : data.size < 2 ^ 63) :
    ((∃ fault, Machine.Splitter.start data = .error fault) ↔ Unterminated data) ∧
    (∀ fault, Machine.Splitter.start data = .error fault → split data = .error fault) ∧
    ∀ splitter, Machine.Splitter.start data = .ok splitter →
      ∃ segments items, InOrder data.data.toList segments ∧ Itemise segments items ∧
        (∀ given, Machine.Drains Machine.Splitter.next splitter given ↔ given = items) ∧
        split data = .ok items := by
  rw [Machine.Splitter.start, split, unterminated_iff]
  by_cases ends : data.data.back? = some 0
  · rw [if_pos ends, if_pos ends]
    refine ⟨by simp [ends], by simp, fun splitter started => ?_⟩
    cases started
    have valid : Machine.Splitter.Valid ⟨data, 0, 0⟩ := ⟨small, Nat.zero_le _, Nat.le_refl _, ends⟩
    exact ⟨_, _, segments_inOrder _, itemise_read _, fun _ => Machine.Splitter.drains_iff valid,
      rfl⟩
  · rw [if_neg ends, if_neg ends]
    exact ⟨by simp [ends], by rintro fault ⟨rfl⟩; rfl, by simp⟩

/-- A name, padding, a name that is not text and another name: three items, and the second one takes
up an index. -/
theorem split_yields_padded :
    (ByteArray.mk #[0x61, 0, 0, 0xff, 0, 0x62, 0]).size < 2 ^ 63 ∧
    ∃ splitter, Machine.Splitter.start ⟨#[0x61, 0, 0, 0xff, 0, 0x62, 0]⟩ = .ok splitter ∧
      Machine.Drains Machine.Splitter.next splitter
        [.ok ⟨"a", 0⟩, .error (.exportNameEncoding 3 (.malformed 0 1)), .ok ⟨"b", 2⟩] := by
  have small : (ByteArray.mk #[0x61, 0, 0, 0xff, 0, 0x62, 0]).size < 2 ^ 63 := by decide
  obtain ⟨-, -, yields⟩ := split_yields_segments _ small
  obtain ⟨segments, items, -, -, only, listed⟩ := yields _ rfl
  have given : items = [.ok ⟨"a", 0⟩, .error (.exportNameEncoding 3 (.malformed 0 1)),
      .ok ⟨"b", 2⟩] := by
    cases listed
    rfl
  exact ⟨small, _, rfl, (only _).mpr given.symm⟩

end KernelExports
