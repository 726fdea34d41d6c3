import KernelExports.Proofs.MachineRegistry
import KernelExports.Proofs.RecordOrder

/-!
# The sorted listing of a registry

The records of a registry, sorted by value and then by name, make a list in which every record
strictly precedes those behind it. There is only one such list, so it does not matter in which order
the registry gave its records or how it came to have them.

Names are compared character by character, and the order that is meant is that of their UTF-8 bytes.
The two are the same: no spelling of a character begins another one, and a character with a lower
code point has lower bytes.
-/

namespace KernelExports

/-! ### Names and their bytes in order -/

namespace Utf8

/-- The bytes that spell the character of a number: its digits in base 64, where the bits above the
first digit tell how many bytes there are, and those above the others mark a continuation. -/
inductive Spelling (number : Nat) : List UInt8 → Prop
  /-- Below U+0080 there is one byte. -/
  | one (high : number < 0x80) : Spelling number [.ofNat number]
  /-- Below U+0800 there are two. -/
  | two {first last : Nat} (digits : number = first * 0x40 + last) (low : 0x80 ≤ number)
    (first_lt : first < 0x20) (last_lt : last < 0x40) :
    Spelling number [.ofNat (first + 0xc0), .ofNat (last + 0x80)]
  /-- Below U+10000 there are three. -/
  | three {first second last : Nat} (digits : number = (first * 0x40 + second) * 0x40 + last)
    (low : 0x800 ≤ number) (first_lt : first < 0x10) (second_lt : second < 0x40)
    (last_lt : last < 0x40) :
    Spelling number [.ofNat (first + 0xe0), .ofNat (second + 0x80), .ofNat (last + 0x80)]
  /-- All others have four. -/
  | four {first second third last : Nat}
    (digits : number = ((first * 0x40 + second) * 0x40 + third) * 0x40 + last)
    (low : 0x10000 ≤ number) (first_lt : first < 0x08) (second_lt : second < 0x40)
    (third_lt : third < 0x40) (last_lt : last < 0x40) :
    Spelling number
      [.ofNat (first + 0xf0), .ofNat (second + 0x80), .ofNat (third + 0x80), .ofNat (last + 0x80)]

/-- A character is spelled by the bytes of its number. -/
theorem spelling (char : Char) : Spelling char.val.toNat (String.utf8EncodeChar char) := by
  have valid : char.val.toNat < 0xd800 ∨ 0xdfff < char.val.toNat ∧ char.val.toNat < 0x110000 :=
    char.valid
  change Spelling char.val.toNat (if char.val.toNat ≤ 0x7f then _
    else if char.val.toNat ≤ 0x7ff then _ else if char.val.toNat ≤ 0xffff then _ else _)
  split
  · exact .one (by omega)
  · split
    · exact .two (by omega) (by omega) (by omega) (by omega)
    · split
      · exact .three (by omega) (by omega) (by omega) (by omega) (by omega)
      · exact .four (by omega) (by omega) (by omega) (by omega) (by omega) (by omega)

/-- No number is spelled by no bytes. -/
theorem Spelling.ne_nil {number : Nat} {bytes : List UInt8} (spelled : Spelling number bytes) :
    bytes ≠ [] := by
  cases spelled <;> exact List.cons_ne_nil _ _

/-- A lower character has lower bytes, whatever stands behind them. -/
theorem Spelling.append_lt {number number' : Nat} {bytes bytes' : List UInt8}
    (spelled : Spelling number bytes) (spelled' : Spelling number' bytes')
    (lower : number < number') (rest rest' : List UInt8) : bytes ++ rest < bytes' ++ rest' := by
  have lt_iff {n n' : Nat} (fits : n < 256) (fits' : n' < 256) :
      UInt8.ofNat n < UInt8.ofNat n' ↔ n < n' := by
    rw [UInt8.lt_iff_toNat_lt, UInt8.toNat_ofNat_of_lt' fits, UInt8.toNat_ofNat_of_lt' fits']
  have eq_iff {n n' : Nat} (fits : n < 256) (fits' : n' < 256) :
      UInt8.ofNat n = UInt8.ofNat n' ↔ n = n' := by
    rw [← UInt8.toNat_inj, UInt8.toNat_ofNat_of_lt' fits, UInt8.toNat_ofNat_of_lt' fits']
  -- With fewer bytes the first byte decides, with as many bytes the first digit that differs.
  cases spelled <;> cases spelled' <;>
    simp (disch := omega) only [List.cons_append, List.cons_lt_cons_iff, lt_iff, eq_iff] <;> omega

/-- A text is encoded character by character. -/
theorem encode_eq_flatMap (text : String) :
    encode text = text.toList.flatMap String.utf8EncodeChar := by
  rw [encode, String.toUTF8_eq_toByteArray, ← String.utf8Encode_toList, List.utf8Encode,
    List.toList_data_toByteArray]

/-- Lists of characters are encoded in their order. -/
theorem flatMap_lt_flatMap {first second : List Char} (lower : first < second) :
    first.flatMap String.utf8EncodeChar < second.flatMap String.utf8EncodeChar := by
  induction lower with
  | @nil char rest =>
    obtain ⟨byte, others, spelled⟩ := List.exists_cons_of_ne_nil (spelling char).ne_nil
    rw [List.flatMap_cons, spelled]
    exact List.nil_lt_cons _ _
  | rel lower =>
    rw [List.flatMap_cons, List.flatMap_cons]
    exact (spelling _).append_lt (spelling _) lower _ _
  | cons _ ih =>
    rw [List.flatMap_cons, List.flatMap_cons]
    exact List.append_left_lt ih

/-- The order of texts is that of their bytes. -/
theorem encode_lt_encode {first second : String} (lower : first < second) :
    encode first < encode second := by
  rw [encode_eq_flatMap, encode_eq_flatMap]
  exact flatMap_lt_flatMap lower

end Utf8

/-! ### Records in order -/

namespace Record

/-- A record comes before another one: its value is lower, or the values are the same and the bytes
of its name are lower. -/
def Precedes (first second : Record) : Prop :=
  Prod.Lex (· < ·) (List.Lex (· < ·)) (first.value.toNat, Utf8.encode first.name)
    (second.value.toNat, Utf8.encode second.name)

/-- A record comes before another by value, and by the bytes of the name where these are equal. -/
theorem precedes_iff {first second : Record} :
    first.Precedes second ↔ first.value < second.value ∨
      first.value = second.value ∧ Utf8.encode first.name < Utf8.encode second.name := by
  rw [Precedes, Prod.lex_def, UInt64.lt_iff_toNat_lt, ← UInt64.toNat_inj]
  rfl

/-- No two records come before each other. -/
theorem Precedes.asymm {first second : Record} (before : first.Precedes second) :
    ¬ second.Precedes first := by
  rw [precedes_iff] at before ⊢
  rintro (lower | ⟨same, lower⟩)
  · rcases before with lower' | ⟨same', -⟩
    · exact UInt64.lt_asymm lower lower'
    · exact UInt64.ne_of_lt lower same'.symm
  · rcases before with lower' | ⟨-, lower'⟩
    · exact UInt64.ne_of_lt lower' same.symm
    · exact List.lt_asymm lower lower'

/-- Between records of different names the order is strict. -/
theorem precedes_of_keyLe {first second : Record} (ordered : KeyLe first.key second.key)
    (different : first.name ≠ second.name) : first.Precedes second := by
  rw [precedes_iff]
  rcases ordered with lower | ⟨same, ordered⟩
  · exact .inl lower
  · exact .inr ⟨same, Utf8.encode_lt_encode (lt_of_le_of_ne ordered different)⟩

end Record

namespace Registry

/-- All records of a registry, in order. -/
structure IsListedBy (registry : Registry) (listing : List Record) : Prop where
  /-- No record comes twice. -/
  once : listing.Nodup
  /-- Every record comes, and nothing else does. -/
  mem_iff : ∀ record, record ∈ listing ↔ registry.get? record.name = some record
  /-- Each record precedes those behind it. -/
  ascending : listing.Pairwise Record.Precedes

/-- There is only one such list. -/
theorem IsListedBy.unique {registry : Registry} {listing listing' : List Record}
    (listed : registry.IsListedBy listing) (listed' : registry.IsListedBy listing') :
    listing = listing' := by
  have same : listing.Perm listing' := by
    rw [List.perm_ext_iff_of_nodup listed.once listed'.once]
    exact fun record => (listed.mem_iff record).trans (listed'.mem_iff record).symm
  exact same.eq_of_pairwise (fun _ _ _ _ before behind => absurd behind before.asymm)
    listed.ascending listed'.ascending

/-- In whatever order the records come, sorting them gives this list. -/
theorem WellFormed.isListedBy_sortByValue {registry : Registry} (wellFormed : registry.WellFormed)
    {records : List Record} (order : records.Perm registry.toList) :
    registry.IsListedBy (sortByValue records) := by
  have perm : (sortByValue records).Perm registry.toList := (sortByValue_perm records).trans order
  have names : ((sortByValue records).map Record.name).Nodup :=
    (perm.map Record.name).nodup_iff.mpr wellFormed.consistent.distinct
  have sorted := List.pairwise_map.mp (pairwise_sortByValue records)
  have apart := List.pairwise_map.mp names
  exact {
    once := .of_map _ names
    mem_iff := fun record => perm.mem_iff.trans wellFormed.mem_toList_iff
    ascending := sorted.imp₂ (fun _ _ => Record.precedes_of_keyLe) apart }

/-- Sorting the records gives the one listing in this order. -/
theorem WellFormed.isListedBy_iff {registry : Registry} (wellFormed : registry.WellFormed)
    {records : List Record} (order : records.Perm registry.toList) {listing : List Record} :
    registry.IsListedBy listing ↔ listing = sortByValue records := by
  have sorted := wellFormed.isListedBy_sortByValue order
  exact ⟨fun listed => listed.unique sorted, fun same => same ▸ sorted⟩

/-- Registries with the same records are listed alike. -/
theorem IsListedBy.congr {registry other : Registry}
    (same : ∀ name, other.get? name = registry.get? name) {listing : List Record}
    (listed : registry.IsListedBy listing) : other.IsListedBy listing where
  once := listed.once
  mem_iff record := by rw [same, listed.mem_iff]
  ascending := listed.ascending

/-- The sorted listing of a registry has every record once, each in front of all records with a
higher value and of those with the same value and a name of higher bytes, and there is no other list
like that. So the order in which the records are given makes no difference to it, nor does the way
in which the registry came to have its records. -/
theorem sorted_listing_canonical {registry : Registry} (reachable : registry.Reachable)
    {records : List Record} (order : records.Perm registry.toList) :
    sortByValue records = registry.sortedByValue ∧
    (∀ listing, registry.IsListedBy listing ↔ listing = registry.sortedByValue) ∧
    ∀ other : Registry, other.Reachable → (∀ name, other.get? name = registry.get? name) →
      ∀ records', records'.Perm other.toList → sortByValue records' = registry.sortedByValue := by
  have wellFormed := reachable.wellFormed
  have only : ∀ listing, registry.IsListedBy listing ↔ listing = registry.sortedByValue :=
    fun _ => wellFormed.isListedBy_iff .rfl
  refine ⟨(only _).mp (wellFormed.isListedBy_sortByValue order), only, ?_⟩
  intro other reachable' same records' order'
  have listed := reachable'.wellFormed.isListedBy_sortByValue order'
  exact (only _).mp (listed.congr fun name => (same name).symm)

/-- Three records with the same value, whose names are spelled in one, three and four bytes, and two
records with other values. -/
def tiedRecords : Registry :=
  empty.served [.change (.insert "a" 0xffffffffffffffff), .change (.insert "😀" 7),
    .change (.insert "z" 7), .change (.insert "\ufb00" 7), .change (.mark "z"),
    .change (.insert "b" 3)]

/-- The same records, after other changes. -/
def tiedAgain : Registry :=
  empty.served [.change (.insert "gone" 0), .change (.insertCopy ⟨"\ufb00", 7, true, none⟩),
    .change (.insert "b" 3), .change (.insert "z" 7), .change (.mark "z"), .change (.remove "gone"),
    .change (.insert "😀" 7), .change (.insert "a" 0xffffffffffffffff)]

/-- The name above U+FFFF is the last of the three, which it is not in the order of 16 bit units. -/
theorem tiedRecords_listed :
    tiedRecords.Reachable ∧
    [⟨"z", 7, true, none⟩, ⟨"a", 0xffffffffffffffff, false, none⟩, ⟨"😀", 7, false, none⟩,
      ⟨"b", 3, false, none⟩, ⟨"\ufb00", 7, false, none⟩].Perm tiedRecords.toList ∧
    tiedRecords.IsListedBy [⟨"b", 3, false, none⟩, ⟨"z", 7, true, none⟩,
      ⟨"\ufb00", 7, false, none⟩, ⟨"😀", 7, false, none⟩,
      ⟨"a", 0xffffffffffffffff, false, none⟩] ∧
    tiedAgain.Reachable ∧
    (∀ name, tiedAgain.get? name = tiedRecords.get? name) ∧
    tiedAgain.sortedByValue = tiedRecords.sortedByValue := by
  have reachable : tiedRecords.Reachable := ⟨empty, _, .empty, rfl⟩
  have reachable' : tiedAgain.Reachable := ⟨empty, _, .empty, rfl⟩
  have order : [⟨"z", 7, true, none⟩, ⟨"a", 0xffffffffffffffff, false, none⟩,
      ⟨"😀", 7, false, none⟩, ⟨"b", 3, false, none⟩, ⟨"\ufb00", 7, false, none⟩].Perm
      tiedRecords.toList := by decide +kernel
  have records : tiedAgain.toList = tiedRecords.toList := by decide +kernel
  have same (name : String) : tiedAgain.get? name = tiedRecords.get? name := by
    refine Option.ext fun record => ?_
    rw [reachable'.wellFormed.get?_eq_some_iff, reachable.wellFormed.get?_eq_some_iff, records]
  obtain ⟨sorted, only, again⟩ := sorted_listing_canonical reachable order
  refine ⟨reachable, order, (only _).mpr ?_, reachable', same, again _ reachable' same _ .rfl⟩
  rw [← sorted]
  cbv

end Registry

end KernelExports
