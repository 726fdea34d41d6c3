import KernelExports.Proofs.Segments
import KernelExports.Proofs.UnmarkedRecords

/-!
# Reading reports back

Without colours and with a line for each export, a report tells what is in the registry. Its parts
stand one behind the other, and each of them shows where it ends. A number ends at the blank behind
it. It may be padded, but the padding is in front of its digits, so a name that begins with blanks
or digits adds nothing to it. A name ends at the end of its line. How many lines there are stands in
front of them, so the next part may look like another line.
-/

namespace KernelExports

open ExportNames Record

/-! ### What a registry holds -/

namespace Registry

/-- The names of a registry with their values. -/
def pairs (registry : Registry) : Set (String × UInt64) :=
  {(name, value) | ∃ record, registry.get? name = some record ∧ record.value = value}

/-- The names of a registry with their values, and whether they are marked. -/
def triples (registry : Registry) : Set (String × UInt64 × Bool) :=
  {(name, value, marked) | ∃ record, registry.get? name = some record ∧ record.value = value ∧
    record.marked = marked}

/-- No name reaches over the end of a line. -/
def NamesFitLines (registry : Registry) : Prop :=
  ∀ record ∈ registry.toList, '\n' ∉ record.name.toList

/-- In whatever order the records come, the sorted ones have the pairs of the registry. -/
theorem WellFormed.mem_pairs_iff {registry : Registry} (wellFormed : registry.WellFormed)
    {records : List Record} (order : records.Perm registry.toList) {name : String}
    {value : UInt64} :
    (name, value) ∈ registry.pairs ↔ (value, name) ∈ (sortByValue records).map key := by
  have sorted : ((sortByValue records).map key).Perm (registry.toList.map key) :=
    ((sortByValue_perm records).trans order).map key
  rw [sorted.mem_iff, wellFormed.mem_keys_iff]
  rfl

/-- A pair is a marked one exactly if it is not among the unmarked ones. -/
theorem YieldsUnmarked.mem_triples_iff {registry : Registry}
    {yielded : List (String × UInt64)} (yields : registry.YieldsUnmarked yielded) {name : String}
    {value : UInt64} {marked : Bool} :
    (name, value, marked) ∈ registry.triples ↔
      (name, value) ∈ registry.pairs ∧ (marked = true ↔ (name, value) ∉ yielded) := by
  rw [yields.mem_iff]
  constructor
  · rintro ⟨record, found, valued, rfl⟩
    refine ⟨⟨record, found, valued⟩, ?_⟩
    simp [found, valued]
  · rintro ⟨⟨record, found, valued⟩, mark⟩
    refine ⟨record, found, valued, ?_⟩
    rw [Bool.eq_iff_iff, mark]
    simp [found, valued]

end Registry

/-! ### Parts of a report -/

namespace Report

/-- A number is written without blanks. -/
theorem blank_notMem_toString (number : Nat) : ' ' ∉ (toString number).toList := by
  intro blank
  rw [Nat.toString_eq_repr, Nat.toList_repr] at blank
  have digit : (' ').isDigit = true := Nat.isDigit_of_mem_toDigits (by omega) (by omega) blank
  exact absurd digit (by decide)

/-- A number ends at the blank behind it. -/
theorem number_cut {number number' : Nat} {rest rest' : String}
    (same : toString number ++ (" " ++ rest) = toString number' ++ (" " ++ rest')) :
    number = number' ∧ rest = rest' := by
  have spelled := congrArg String.toList same
  simp only [String.toList_append] at spelled
  obtain ⟨digits, behind⟩ := first_mark_unique (blank_notMem_toString number)
    (blank_notMem_toString number') spelled
  exact ⟨Nat.repr_inj.mp (String.toList_inj.mp digits), String.toList_inj.mp behind⟩

/-- Padding stands behind the text. -/
theorem toList_pushn (text : String) (char : Char) (count : Nat) :
    (text.pushn char count).toList = text.toList ++ List.replicate count char := by
  rw [String.pushn_eq_repeat_push]
  induction count with
  | zero => simp [Nat.repeat]
  | succ count ih => rw [Nat.repeat, String.toList_push, ih, List.append_assoc,
      ← List.replicate_succ']

/-- The padding of a column ends at the first digit. -/
theorem dropWhile_column (number : UInt64) (rest : String) :
    (column number ++ rest).toList.dropWhile (· == ' ') =
      (toString number.toNat ++ rest).toList := by
  rw [column, String.append_assoc, String.toList_append, toList_pushn, String.toList_empty,
    List.nil_append, List.dropWhile_append_of_pos (by simp), String.toList_append]
  have no_blank := blank_notMem_toString number.toNat
  cases written : (toString number.toNat).toList with
  | nil =>
    rw [Nat.toString_eq_repr, Nat.toList_repr] at written
    exact absurd written Nat.toDigits_ne_nil
  | cons digit digits =>
    rw [written, List.mem_cons, not_or] at no_blank
    have kept : ¬ (digit == ' ') = true := fun same => no_blank.1 (eq_of_beq same).symm
    exact List.dropWhile_cons_of_neg kept

/-- A column is told from what stands behind it. -/
theorem column_cut {number number' : UInt64} {rest rest' : String}
    (same : column number ++ (" " ++ rest) = column number' ++ (" " ++ rest')) :
    number = number' ∧ rest = rest' := by
  have unpadded := congrArg (fun text => text.toList.dropWhile (· == ' ')) same
  rw [dropWhile_column, dropWhile_column] at unpadded
  obtain ⟨digits, behind⟩ := number_cut (String.toList_inj.mp unpadded)
  exact ⟨UInt64.toNat_inj.mp digits, behind⟩

/-- A line ends where a name that fits it ends. -/
theorem line_cut {number number' : UInt64} {name name' rest rest' : String}
    (fits : '\n' ∉ name.toList) (fits' : '\n' ∉ name'.toList)
    (same : line number name ++ rest = line number' name' ++ rest') :
    (number, name) = (number', name') ∧ rest = rest' := by
  rw [line, line] at same
  simp only [String.append_assoc] at same
  obtain ⟨numbers, behind⟩ := column_cut same
  have spelled := congrArg String.toList behind
  simp only [String.toList_append] at spelled
  obtain ⟨names, others⟩ := first_mark_unique fits fits' spelled
  exact ⟨Prod.ext numbers (String.toList_inj.mp names), String.toList_inj.mp others⟩

/-- Lines for numbers and names. -/
def lines (entries : List (UInt64 × String)) : String :=
  String.join (entries.map fun (number, name) => line number name)

/-- As many lines as one expects are found again, whatever stands behind them. -/
theorem lines_cut {entries entries' : List (UInt64 × String)}
    (count : entries.length = entries'.length)
    (fit : ∀ entry ∈ entries, '\n' ∉ entry.2.toList)
    (fit' : ∀ entry ∈ entries', '\n' ∉ entry.2.toList) {rest rest' : String}
    (same : lines entries ++ rest = lines entries' ++ rest') :
    entries = entries' ∧ rest = rest' := by
  induction entries generalizing entries' with
  | nil =>
    cases entries' with
    | nil => simpa [lines] using same
    | cons entry' others' => cases count
  | cons entry others ih =>
    cases entries' with
    | nil => cases count
    | cons entry' others' =>
      obtain ⟨fits, fit⟩ := List.forall_mem_cons.mp fit
      obtain ⟨fits', fit'⟩ := List.forall_mem_cons.mp fit'
      rw [lines, lines, List.map_cons, List.map_cons, String.join_cons, String.join_cons,
        String.append_assoc, String.append_assoc] at same
      obtain ⟨first, behind⟩ := line_cut fits fits' same
      obtain ⟨others, rest⟩ := ih (Nat.succ.inj count) fit fit' behind
      exact ⟨List.cons_eq_cons.mpr ⟨first, others⟩, rest⟩

/-- The number in the heading ends at the blank behind it. -/
theorem heading_cut {path : String} {number other : Nat} {rest rest' : String}
    (same : path ++ s!": {number} exported symbols\n" ++ rest =
      path ++ s!": {other} exported symbols\n" ++ rest') : number = other ∧ rest = rest' := by
  have heading : ∀ number : Nat, s!": {number} exported symbols\n" =
      ": " ++ toString number ++ (" " ++ "exported symbols\n") := fun _ => rfl
  rw [heading, heading] at same
  simp only [String.append_assoc, String.append_right_inj] at same
  obtain ⟨numbers, behind⟩ := number_cut same
  exact ⟨numbers, (String.append_right_inj _).mp behind⟩

/-- The list part of a report is made of lines. -/
theorem listing_eq_lines (records : List Record) :
    listing records = lines ((Registry.sortByValue records).map key) := by
  rw [listing, lines, List.map_map]
  rfl

/-- Without colours the confirmation part has two numbers, and a line for each unmarked record. -/
theorem confirmation_eq_lines (records : List Record) (markCount : Nat) :
    confirmation false records markCount =
      toString markCount ++ (" " ++ ("confirmed in " ++ (symbolSection ++ (", " ++
        (toString (records.length - markCount) ++ (" " ++ ("unconfirmed\n" ++
          lines ((sortByIndex (Registry.unmarkedOf records)).map Prod.swap)))))))) := by
  have blank : " confirmed in " = " " ++ "confirmed in " := rfl
  have blank' : " unconfirmed\n" = " " ++ "unconfirmed\n" := rfl
  rw [confirmation, lines, List.map_map]
  simp only [blank, blank', String.append_assoc]
  rfl

section

variable {records records' : List Record} (fit : ∀ record ∈ records, '\n' ∉ record.name.toList)
  (fit' : ∀ record ∈ records', '\n' ∉ record.name.toList)

include fit in
/-- No name in it breaks a line, if no name does. -/
theorem listing_fits :
    ∀ entry ∈ (Registry.sortByValue records).map key, '\n' ∉ entry.2.toList := by
  intro entry listed
  obtain ⟨record, sorted, rfl⟩ := List.mem_map.mp listed
  exact fit record ((Registry.sortByValue_perm records).mem_iff.mp sorted)

include fit in
/-- Nor does one in the part on confirmation. -/
theorem confirmation_fits :
    ∀ entry ∈ (sortByIndex (Registry.unmarkedOf records)).map Prod.swap,
      '\n' ∉ entry.2.toList := by
  intro entry listed
  obtain ⟨⟨name, value⟩, sorted, rfl⟩ := List.mem_map.mp listed
  obtain ⟨record, unmarked, rfl, -⟩ :=
    Registry.mem_unmarkedOf.mp ((sortByIndex_perm _).mem_iff.mp sorted)
  exact fit record unmarked

include fit fit'

/-- A report tells its lines, and it tells them from the confirmation part. -/
theorem listing_cut {path : String} {confirming : Bool} {markCount markCount' : Nat}
    (same : ofRecords false ⟨true, confirming⟩ path records markCount =
      ofRecords false ⟨true, confirming⟩ path records' markCount') :
    (Registry.sortByValue records).map key = (Registry.sortByValue records').map key ∧
      (confirming = true →
        confirmation false records markCount = confirmation false records' markCount') := by
  have parts : ∀ records markCount, ofRecords false ⟨true, confirming⟩ path records markCount =
      path ++ s!": {records.length} exported symbols\n" ++
        (lines ((Registry.sortByValue records).map key) ++
          if confirming then confirmation false records markCount else "") := by
    intro records markCount
    rw [← listing_eq_lines, ← String.append_assoc]
    rfl
  rw [parts, parts] at same
  obtain ⟨number, behind⟩ := heading_cut same
  have count : ((Registry.sortByValue records).map key).length =
      ((Registry.sortByValue records').map key).length := by
    rw [List.length_map, List.length_map, (Registry.sortByValue_perm records).length_eq,
      (Registry.sortByValue_perm records').length_eq, number]
  obtain ⟨keys, others⟩ := lines_cut count (listing_fits fit) (listing_fits fit') behind
  refine ⟨keys, fun on => ?_⟩
  rwa [if_pos on, if_pos on] at others

/-- If its second number is right, a confirmation part tells what is unmarked. -/
theorem confirmation_cut {markCount markCount' : Nat}
    (count : (Registry.unmarkedOf records).length = records.length - markCount)
    (count' : (Registry.unmarkedOf records').length = records'.length - markCount')
    (same : confirmation false records markCount = confirmation false records' markCount') :
    sortByIndex (Registry.unmarkedOf records) = sortByIndex (Registry.unmarkedOf records') := by
  rw [confirmation_eq_lines, confirmation_eq_lines] at same
  obtain ⟨-, behind⟩ := number_cut same
  simp only [String.append_right_inj] at behind
  obtain ⟨unconfirmed, behind⟩ := number_cut behind
  rw [String.append_right_inj] at behind
  have lengths : ((sortByIndex (Registry.unmarkedOf records)).map Prod.swap).length =
      ((sortByIndex (Registry.unmarkedOf records')).map Prod.swap).length := by
    rw [List.length_map, List.length_map, (sortByIndex_perm _).length_eq,
      (sortByIndex_perm _).length_eq, count, count', unconfirmed]
  have entries := (lines_cut lengths (confirmation_fits fit) (confirmation_fits fit')
    (congrArg (· ++ "") behind)).1
  exact List.map_injective_iff.mpr Prod.swap_injective entries

end

end Report

open Registry

/-- Without colours a report with a line for each export tells the names and values of a registry.
With a confirmation part it tells as well which of them are marked. This holds in whatever order the
registries give their records. -/
theorem report_tells_records {first second : Registry} (reachable : first.Reachable)
    (reachable' : second.Reachable) (fit : first.NamesFitLines) (fit' : second.NamesFitLines)
    {records records' : List Record} (order : records.Perm first.toList)
    (order' : records'.Perm second.toList) (path : String) :
    (Report.ofRecords false ⟨true, false⟩ path records first.markCount =
        Report.ofRecords false ⟨true, false⟩ path records' second.markCount →
      first.pairs = second.pairs) ∧
    (Report.ofRecords false ⟨true, true⟩ path records first.markCount =
        Report.ofRecords false ⟨true, true⟩ path records' second.markCount →
      first.triples = second.triples) := by
  have wellFormed := reachable.wellFormed
  have wellFormed' := reachable'.wellFormed
  have records_fit : ∀ record ∈ records, '\n' ∉ record.name.toList := fun record listed =>
    fit record (order.mem_iff.mp listed)
  have records_fit' : ∀ record ∈ records', '\n' ∉ record.name.toList := fun record listed =>
    fit' record (order'.mem_iff.mp listed)
  have told : ∀ {confirming : Bool},
      Report.ofRecords false ⟨true, confirming⟩ path records first.markCount =
        Report.ofRecords false ⟨true, confirming⟩ path records' second.markCount →
      first.pairs = second.pairs := by
    intro confirming same
    refine Set.ext fun (name, value) => ?_
    rw [wellFormed.mem_pairs_iff order, wellFormed'.mem_pairs_iff order',
      (Report.listing_cut records_fit records_fit' same).1]
  refine ⟨told, fun same => ?_⟩
  have yields := wellFormed.yieldsUnmarked order
  have yields' := wellFormed'.yieldsUnmarked order'
  have count : (unmarkedOf records).length = records.length - first.markCount := by
    rw [yields.number, order.length_eq, length_toList]
  have count' : (unmarkedOf records').length = records'.length - second.markCount := by
    rw [yields'.number, order'.length_eq, length_toList]
  have sorted := Report.confirmation_cut records_fit records_fit' count count'
    ((Report.listing_cut records_fit records_fit' same).2 rfl)
  have perm : (unmarkedOf records).Perm (unmarkedOf records') :=
    ((Report.sortByIndex_perm _).symm.trans (.of_eq sorted)).trans (Report.sortByIndex_perm _)
  refine Set.ext fun (name, value, marked) => ?_
  rw [yields.mem_triples_iff, yields'.mem_triples_iff, told same, perm.mem_iff]

/-- A value that comes up three times, and names that look like numbers or lines of a report. -/
def namesLikeLines : Registry :=
  empty.served [.change (.insert " 7 x" 1234567), .change (.insert "b" 5),
    .change (.insert "5 b" 5), .change (.insert "1 confirmed in .symtab, 0 unconfirmed" 5),
    .change (.mark "b")]

/-- The same names, values and marks after other changes, with a link. -/
def linkedNames : Registry :=
  empty.served [.change (.insert "1 confirmed in .symtab, 0 unconfirmed" 5),
    .change (.insert "a" 1), .change (.insert "b" 5), .change (.mark "b"),
    .change (.insert "5 b" 5), .change (.remove "a"),
    .change (.insert " 7 x" 1234567), .change (.setLink "b" (some "b.h"))]

/-- The records of `linkedNames` in another order. -/
def linkedRecords : List Record :=
  [⟨"1 confirmed in .symtab, 0 unconfirmed", 5, false, none⟩, ⟨"b", 5, true, some "b.h"⟩,
    ⟨"5 b", 5, false, none⟩, ⟨" 7 x", 1234567, false, none⟩]

/-- Their reports are the same, and so is what they tell. -/
theorem namesLikeLines_told :
    namesLikeLines.Reachable ∧ linkedNames.Reachable ∧ namesLikeLines.NamesFitLines ∧
    linkedNames.NamesFitLines ∧ linkedRecords.Perm linkedNames.toList ∧
    (∀ confirming, Report.ofRecords false ⟨true, confirming⟩ "k.ko" namesLikeLines.toList
        namesLikeLines.markCount =
      Report.ofRecords false ⟨true, confirming⟩ "k.ko" linkedRecords linkedNames.markCount) ∧
    namesLikeLines.pairs = linkedNames.pairs ∧ namesLikeLines.triples = linkedNames.triples := by
  have reachable : namesLikeLines.Reachable := ⟨empty, _, .empty, rfl⟩
  have reachable' : linkedNames.Reachable := ⟨empty, _, .empty, rfl⟩
  have fit : namesLikeLines.NamesFitLines := by
    rw [NamesFitLines]
    decide +kernel
  have fit' : linkedNames.NamesFitLines := by
    rw [NamesFitLines]
    decide +kernel
  have order : linkedRecords.Perm linkedNames.toList := by decide +kernel
  have records : namesLikeLines.toList = [⟨" 7 x", 1234567, false, none⟩,
      ⟨"1 confirmed in .symtab, 0 unconfirmed", 5, false, none⟩, ⟨"5 b", 5, false, none⟩,
      ⟨"b", 5, true, none⟩] := by decide +kernel
  have count : namesLikeLines.markCount = 1 := by decide +kernel
  have count' : linkedNames.markCount = 1 := by decide +kernel
  have reports : ∀ confirming, Report.ofRecords false ⟨true, confirming⟩ "k.ko"
      namesLikeLines.toList namesLikeLines.markCount =
        Report.ofRecords false ⟨true, confirming⟩ "k.ko" linkedRecords linkedNames.markCount := by
    intro confirming
    rw [records, count, count']
    cases confirming <;> cbv
  obtain ⟨pairs, triples⟩ := report_tells_records reachable reachable' fit fit' .rfl order "k.ko"
  exact ⟨reachable, reachable', fit, fit', order, reports, pairs (reports false),
    triples (reports true)⟩

end KernelExports
