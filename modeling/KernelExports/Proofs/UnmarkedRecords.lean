import KernelExports.Proofs.ConfirmationOrder
import KernelExports.Proofs.RecordOrder

/-!
# The unmarked records of a report

A registry may give its records in any order. In each of them every unmarked record comes up once,
and there are as many unmarked records as the count of marks leaves. The report takes its two
numbers from the count and its lines from the records. They agree because the count is right in
every registry that a caller can come to.
-/

namespace KernelExports

namespace Registry

/-- The names and values of the unmarked records, one after the other. -/
structure YieldsUnmarked (registry : Registry) (yielded : List (String × UInt64)) : Prop where
  /-- No name comes twice. -/
  once : (yielded.map Prod.fst).Nodup
  /-- Every unmarked record comes with its whole value, and no marked one does. -/
  mem_iff : ∀ name value, (name, value) ∈ yielded ↔
    ∃ record, registry.get? name = some record ∧ record.marked = false ∧ record.value = value
  /-- There are as many as the count of marks leaves. -/
  number : yielded.length = registry.size - registry.markCount

/-- A record of a list is either marked or it is an unmarked one. -/
theorem length_unmarkedOf (records : List Record) :
    (unmarkedOf records).length + records.countP Record.marked = records.length := by
  have split := List.length_eq_countP_add_countP Record.marked (l := records)
  rw [unmarkedOf, List.length_map, ← List.countP_eq_length_filter, split, Nat.add_comm]
  simp only [Bool.not_eq_true, Bool.decide_eq_false]

/-- The unmarked records are given with their names and values. -/
theorem mem_unmarkedOf {records : List Record} {name : String} {value : UInt64} :
    (name, value) ∈ unmarkedOf records ↔
      ∃ record ∈ records, record.name = name ∧ record.marked = false ∧ record.value = value := by
  simp only [unmarkedOf, List.mem_map, List.mem_filter, Bool.not_eq_true', Prod.mk.injEq]
  constructor
  · rintro ⟨record, ⟨listed, unmarked⟩, named, valued⟩
    exact ⟨record, listed, named, unmarked, valued⟩
  · rintro ⟨record, listed, named, unmarked, valued⟩
    exact ⟨record, ⟨listed, unmarked⟩, named, valued⟩

/-- Their names are in the order of the records. -/
theorem names_unmarkedOf_sublist (records : List Record) :
    ((unmarkedOf records).map Prod.fst).Sublist (records.map Record.name) := by
  rw [unmarkedOf, List.map_map]
  exact List.filter_sublist.map Record.name

/-- In whatever order the records come, each unmarked one comes once. -/
theorem WellFormed.yieldsUnmarked {registry : Registry} (wellFormed : registry.WellFormed)
    {records : List Record} (order : records.Perm registry.toList) :
    registry.YieldsUnmarked (unmarkedOf records) where
  once := by
    have distinct : (records.map Record.name).Nodup :=
      (order.map Record.name).nodup_iff.mpr wellFormed.consistent.distinct
    exact distinct.sublist (names_unmarkedOf_sublist records)
  mem_iff name value := by
    rw [mem_unmarkedOf]
    simp only [order.mem_iff, wellFormed.get?_eq_some_iff, and_assoc]
  number := by
    have total := length_unmarkedOf records
    rw [order.countP_eq, order.length_eq, length_toList] at total
    have counted : registry.markCount = registry.toList.countP Record.marked := wellFormed.counted
    omega

/-- A visitor is handed what is yielded, in the same order. -/
theorem visitUnmarked_eq_forM {m : Type → Type} [Monad m] (visitor : String → UInt64 → m Unit)
    (records : List Record) :
    visitUnmarked visitor records =
      (unmarkedOf records).forM fun (name, value) => visitor name value := by
  induction records with
  | nil => rfl
  | cons record rest ih =>
    cases marked : record.marked with
    | true =>
      have same : unmarkedOf (record :: rest) = unmarkedOf rest := by simp [unmarkedOf, marked]
      rw [visitUnmarked, if_pos marked, ih, same]
    | false =>
      have first :
          unmarkedOf (record :: rest) = (record.name, record.value) :: unmarkedOf rest := by
        simp [unmarkedOf, marked]
      rw [visitUnmarked, if_neg (by simp [marked]), ih, first]
      rfl

end Registry

namespace Report

/-- What a report with a confirmation part says. -/
structure Figures where
  /-- The number in the heading. -/
  exported : Nat
  /-- The number of confirmed exports. -/
  confirmed : Nat
  /-- The number of the other exports. -/
  unconfirmed : Nat
  /-- The names and indices in the lines at the end. -/
  entries : List (String × UInt64)

namespace Figures

/-- The text of a report that says this. Behind the heading it may have the lines of a listing. -/
def text (figures : Figures) (colors : Bool) (path listing : String) : String :=
  let style : Style := if figures.unconfirmed = 0 then .green else .yellow
  Style.bold.paint colors path ++ s!": {figures.exported} exported symbols\n" ++ listing ++
    (s!"{figures.confirmed} confirmed in {symbolSection}, " ++
      style.paint colors (toString figures.unconfirmed) ++ " unconfirmed\n" ++
      String.join (figures.entries.map fun (name, index) =>
        line index (Style.yellow.paint colors name)))

/-- What is said agrees with a registry, and with itself. -/
structure Agree (figures : Figures) (registry : Registry) : Prop where
  /-- All records are exported. -/
  exported : figures.exported = registry.size
  /-- Those that are marked are confirmed. -/
  confirmed : figures.confirmed = (registry.toList.filter Record.marked).length
  /-- The two numbers of the confirmation part add up to the number in the heading. -/
  total : figures.confirmed + figures.unconfirmed = figures.exported
  /-- There are as many lines as unconfirmed exports. -/
  lines : figures.entries.length = figures.unconfirmed
  /-- There is one for each unmarked record. -/
  unmarked : registry.YieldsUnmarked figures.entries
  /-- No line has a lower index than a line before it. -/
  ordered : figures.entries.Pairwise fun first second => first.2 ≤ second.2

end Figures

/-- The figures that are reported on records of which the given number is marked. -/
def figures (records : List Record) (markCount : Nat) : Figures :=
  ⟨records.length, markCount, records.length - markCount,
    sortByIndex (Registry.unmarkedOf records)⟩

/-- A report that confirms is the text of its figures. -/
theorem ofRecords_eq_text {options : ReportOptions} (confirming : options.confirm = true)
    (colors : Bool) (path : String) (records : List Record) (markCount : Nat) :
    ofRecords colors options path records markCount =
      (figures records markCount).text colors path
        (if options.list then listing records else "") := by
  rw [ofRecords, if_pos confirming]
  rfl

/-- The figures that are reported agree with a registry whose count of marks is right. -/
theorem figures_agree {registry : Registry} (wellFormed : registry.WellFormed)
    {records : List Record} (order : records.Perm registry.toList) :
    (figures records registry.markCount).Agree registry := by
  have yields := wellFormed.yieldsUnmarked order
  have consistent := wellFormed.consistent
  have sorted := sortByIndex_perm (Registry.unmarkedOf records)
  have length : records.length = registry.size := by
    rw [order.length_eq, Registry.length_toList]
  exact {
    exported := length
    confirmed := consistent.counted
    total := by
      have bounded := consistent.bounded
      dsimp only [figures]
      omega
    lines := by
      dsimp only [figures]
      rw [sorted.length_eq, yields.number, length]
    unmarked := {
      once := (sorted.map Prod.fst).nodup_iff.mpr yields.once
      mem_iff := fun name value => sorted.mem_iff.trans (yields.mem_iff name value)
      number := sorted.length_eq.trans yields.number }
    ordered := pairwise_sortByIndex _ }

end Report

open Registry

/-- In whatever order a registry gives its records, its unmarked records come up once each, with
their whole values, and a visitor is handed just these. So a report with a confirmation part has two
numbers that add up to the number in its heading, and behind them a line for each unmarked record,
as many as the second number says and in the order of their indices. -/
theorem confirmation_accounts_for_unmarked {registry : Registry} (reachable : registry.Reachable)
    {records : List Record} (order : records.Perm registry.toList) :
    registry.YieldsUnmarked (unmarkedOf records) ∧
    (∀ {m : Type → Type} [Monad m] (visitor : String → UInt64 → m Unit),
      visitUnmarked visitor records =
        (unmarkedOf records).forM fun (name, value) => visitor name value) ∧
    ∀ (colors : Bool) (options : ReportOptions) (path : String), options.confirm = true →
      ∃ figures : Report.Figures, figures.Agree registry ∧
        Report.ofRecords colors options path records registry.markCount =
          figures.text colors path (if options.list then Report.listing records else "") := by
  have wellFormed := reachable.wellFormed
  refine ⟨wellFormed.yieldsUnmarked order, fun visitor => visitUnmarked_eq_forM visitor records, ?_⟩
  intro colors options path confirming
  exact ⟨_, Report.figures_agree wellFormed order,
    Report.ofRecords_eq_text confirming colors path records registry.markCount⟩

/-- A record is put back after it was taken out while it was marked, and a confirmation that fails
midway marks another one. -/
def restoredRecord : Registry :=
  empty.served [.change (.insert "a" 0xffffffffffffffff), .change (.insert "b" 7),
    .change (.insert "c" 7), .change (.mark "a"), .change (.mark "a"), .confirm Machine.partlyNamed,
    .change (.remove "a"), .change (.insertCopy ⟨"a", 0xffffffffffffffff, true, none⟩)]

/-- The record that was put back is reported as unconfirmed, with its whole value. -/
theorem restoredRecord_reported :
    restoredRecord.Reachable ∧
    [⟨"b", 7, true, none⟩, ⟨"a", 0xffffffffffffffff, false, none⟩, ⟨"c", 7, false, none⟩].Perm
      restoredRecord.toList ∧
    restoredRecord.YieldsUnmarked [("a", 0xffffffffffffffff), ("c", 7)] ∧
    ∃ figures : Report.Figures, figures.Agree restoredRecord ∧
      figures.text false "k.ko" "" = "k.ko: 3 exported symbols\n" ++
        "1 confirmed in .symtab, 2 unconfirmed\n     7 c\n18446744073709551615 a\n" := by
  have reachable : restoredRecord.Reachable := ⟨empty, _, .empty, rfl⟩
  have order : [⟨"b", 7, true, none⟩, ⟨"a", 0xffffffffffffffff, false, none⟩,
      ⟨"c", 7, false, none⟩].Perm restoredRecord.toList := by decide +kernel
  have count : restoredRecord.markCount = 1 := by decide +kernel
  obtain ⟨yields, -, reported⟩ := confirmation_accounts_for_unmarked reachable order
  obtain ⟨figures, agree, text⟩ := reported false ⟨false, true⟩ "k.ko" rfl
  rw [count] at text
  refine ⟨reachable, order, yields, figures, agree, text.symm.trans ?_⟩
  cbv

end KernelExports
