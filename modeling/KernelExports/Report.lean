import KernelExports.Extraction
import KernelExports.Style

/-!
# Reports on exported symbols

The text that is shown for a file: how many symbols it exports, on request the exports in the order
of their values, and on request how many of them are confirmed and which ones are not. A file that
is not ELF or lists no exports gets a line that says so.

A report is written from a list of records and the number of marked ones. The order of the list
shows only where unconfirmed records have equal values.
-/

namespace KernelExports

/-- What a report contains beside the number of exports. -/
structure ReportOptions where
  /-- Every export with its value. -/
  list : Bool
  /-- The number of confirmed exports, and the others by name. -/
  confirm : Bool
  deriving DecidableEq, Repr

namespace Report

/-- A number, right-aligned in six columns. -/
def column (number : UInt64) : String :=
  let digits := toString number.toNat
  "".pushn ' ' (6 - digits.length) ++ digits

/-- A number and a name on a line. -/
def line (number : UInt64) (name : String) : String :=
  column number ++ " " ++ name ++ "\n"

/-- The lines for all records, in the order of their values. -/
def listing (records : List Record) : String :=
  String.join ((Registry.sortByValue records).map fun record => line record.value record.name)

/-- Names and values in the order of the values; those of equal value keep their order. -/
def sortByIndex (unmarked : List (String × UInt64)) : List (String × UInt64) :=
  unmarked.mergeSort fun first second => first.2 ≤ second.2

/-- The numbers of confirmed and of other records, and a line for each of the others. -/
def confirmation (colors : Bool) (records : List Record) (markCount : Nat) : String :=
  let unconfirmed := records.length - markCount
  let style : Style := if unconfirmed = 0 then .green else .yellow
  s!"{markCount} confirmed in {symbolSection}, " ++
    style.paint colors (toString unconfirmed) ++ " unconfirmed\n" ++
    String.join ((sortByIndex (Registry.unmarkedOf records)).map fun (name, index) =>
      line index (Style.yellow.paint colors name))

/-- The report on records of which the given number is marked. -/
def ofRecords (colors : Bool) (options : ReportOptions) (path : String)
    (records : List Record) (markCount : Nat) : String :=
  Style.bold.paint colors path ++ s!": {records.length} exported symbols\n" ++
    (if options.list then listing records else "") ++
    (if options.confirm then confirmation colors records markCount else "")

/-- The report on a registry. -/
def ofRegistry (colors : Bool) (options : ReportOptions) (path : String)
    (registry : Registry) : String :=
  ofRecords colors options path registry.toList registry.markCount

/-- The line for a file without exports. -/
def skipped (colors : Bool) (path : String) : String :=
  Style.bold.paint colors path ++
    s!": not an ELF file or no {exportSection} section, skipping\n"

/-- The report on the file at a path. -/
def ofPath (files : FileSystem) (colors : Bool) (options : ReportOptions) (path : String) :
    Except Error String :=
  match
    if options.confirm then readConfirmedExports files path else readExports files path
  with
  | .error error => .error error
  | .ok none => .ok (skipped colors path)
  | .ok (some registry) => .ok (ofRegistry colors options path registry)

/-- The wording for a file on which there is no report. -/
def failure (path : String) (error : Error) : String :=
  s!"Failed to read exported symbols of {path}: {error.message}" ++
    match error.cause? with
    | some cause => ": " ++ cause
    | none => ""

end Report

end KernelExports
