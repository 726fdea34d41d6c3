import KernelExports.Proofs.AppendedData
import KernelExports.Proofs.MachineReader
import KernelExports.Proofs.MachineSplitter
import KernelExports.Proofs.SymbolItems

/-!
# Calls on an open file

Who has opened a file makes calls on it in any order and number: lookups of sections, requests for
the symbol names, requests for an iterator over the symbols, and steps of any iterator that was
handed out before. On a machine no such sequence of calls traps, and the answers are those of this
library.
-/

namespace KernelExports

/-- A call on an open file. -/
inductive Call where
  /-- A lookup of a section. -/
  | find (name : String)
  /-- A request for the symbol names. -/
  | symbolNames
  /-- A request for an iterator over the symbols. -/
  | globalSymbols
  /-- A step of the iterator of the given number, counted in the order of the requests. -/
  | next (iterator : Nat)
  deriving DecidableEq, Repr

/-- The answer to a call. -/
inductive Answer where
  /-- What a lookup of a section gives. -/
  | found (result : Except Error (Option Section))
  /-- The symbol names, if there are some. -/
  | names (content : Option ByteArray)
  /-- Whether there is an iterator, or the reason why there is none. -/
  | started (failure : Option Error)
  /-- The item that a step gives, unless there is no more item or no such iterator. -/
  | item (item : Option (Except Malformation GlobalSymbol))

/-- An open file with the items that its iterators have yet to give. -/
structure Caller where
  /-- The file. -/
  file : ElfFile
  /-- What each iterator has yet to give. -/
  iterators : List (List (Except Malformation GlobalSymbol))

namespace Caller

/-- The answer to one call, and what is left behind. -/
def call (caller : Caller) : Call → Answer × Caller
  | .find name => (.found (caller.file.find name), caller)
  | .symbolNames => (.names caller.file.symbolNames, caller)
  | .globalSymbols =>
    match caller.file.globalSymbols with
    | .error error => (.started (some error), caller)
    | .ok items => (.started none, { caller with iterators := caller.iterators ++ [items] })
  | .next iterator =>
    match caller.iterators[iterator]? with
    | none => (.item none, caller)
    | some items =>
      (.item items.head?, { caller with iterators := caller.iterators.set iterator items.tail })

/-- The answers to calls that follow each other. -/
def answers (caller : Caller) : List Call → List Answer
  | [] => []
  | call :: rest => (caller.call call).1 :: (caller.call call).2.answers rest

end Caller

namespace Machine

/-- An iterator over symbols: the records that it has yet to look at, and the table with their
names. -/
structure Symbols where
  /-- The records, as bytes. -/
  entries : List ByteArray
  /-- The names. -/
  names : ByteArray

/-- The parts of a fixed size that fill `data`, one after the other. -/
def parts (size : Nat) (data : ByteArray) : List ByteArray :=
  (List.range (data.size / size)).map fun i => data.extract (i * size) ((i + 1) * size)

namespace Symbols

/-- The iterator over a symbol table. The first record is reserved. -/
def start (symbols names : ByteArray) : Except Malformation Symbols :=
  if symbols.size % 24 = 0 then .ok ⟨(parts 24 symbols).tail, names⟩
  else .error (.symbolTableSize symbols.size)

/-- The name at a position of the symbol string table. -/
def nameAt (names : ByteArray) (offset : UInt32) : Run (Except Malformation String) :=
  if length names ≤ offset.toUInt64 then return .error (.symbolNameOffset offset names.size)
  else do
    let rest ← rangeFrom names offset.toUInt64
    match untilNul rest with
    | none => return .error (.symbolNameUnterminated offset)
    | some bytes =>
      match Utf8.decode bytes with
      | .ok name => return .ok name
      | .error defect => return .error (.symbolNameEncoding offset defect)

/-- The next item among the given records, and the records behind it. -/
def nextAmong (names : ByteArray) :
    List ByteArray → Run (Option (Except Malformation GlobalSymbol) × List ByteArray)
  | [] => return (none, [])
  | entry :: rest =>
    match record? SymbolRecord entry 0 with
    | none => return (none, rest)
    | some record =>
      match Binding.ofInfo? record.info with
      | none => nextAmong names rest
      | some binding =>
        if record.name = 0 then nextAmong names rest
        else do
          let name ← nameAt names record.name
          return (some (name.map fun name => ⟨name, record.value, binding⟩), rest)

/-- The next item. -/
def next (symbols : Symbols) : Run (Option (Except Malformation GlobalSymbol) × Symbols) := do
  let (item, rest) ← nextAmong symbols.names symbols.entries
  return (item, ⟨rest, symbols.names⟩)

/-- The items that an iterator has yet to give. -/
def items (symbols : Symbols) : List (Except Malformation GlobalSymbol) :=
  symbols.entries.filterMap fun entry =>
    GlobalSymbol.ofRecord? symbols.names (Layout.ofBytes entry.data.toList)

/-- An iterator whose records are whole. -/
structure Valid (symbols : Symbols) : Prop where
  /-- The names can be mapped. -/
  small : symbols.names.size < 2 ^ 63
  /-- Every record has its size. -/
  whole : ∀ entry ∈ symbols.entries, entry.size = 24

/-- Reading the name of a symbol does not trap, and it gives the same name or fault. -/
theorem nameAt_eq {names : ByteArray} (small : names.size < 2 ^ 63) (offset : UInt32) :
    nameAt names offset = .ok (GlobalSymbol.nameAt names offset) := by
  rw [nameAt, GlobalSymbol.nameAt]
  by_cases inside : offset.toNat < names.size
  · have start : offset.toUInt64.toNat ≤ names.size := by
      rw [UInt32.toNat_toUInt64]
      omega
    have lower : ¬ length names ≤ offset.toUInt64 := by
      rw [UInt64.le_iff_toNat_le, UInt32.toNat_toUInt64, toNat_length small]
      omega
    rw [if_neg lower, rangeFrom_eq_ok start, ok_bind, UInt32.toNat_toUInt64,
      entry_eq_untilNul inside]
    cases untilNul (names.extract offset.toNat names.size) with
    | none => rfl
    | some bytes =>
      dsimp only
      cases Utf8.decode bytes <;> rfl
  · have upper : length names ≤ offset.toUInt64 := by
      rw [UInt64.le_iff_toNat_le, UInt32.toNat_toUInt64, toNat_length small]
      omega
    rw [if_pos upper, StringTable.entry_outside (by omega)]
    rfl

/-- A step does not trap. It gives the first item and leaves the others. -/
theorem next_eq {symbols : Symbols} (valid : symbols.Valid) :
    ∃ rest : Symbols, symbols.next = .ok (symbols.items.head?, rest) ∧
      rest.items = symbols.items.tail ∧ rest.Valid := by
  obtain ⟨entries, names⟩ := symbols
  obtain ⟨small, whole⟩ := valid
  dsimp only at small whole
  rw [next, items]
  dsimp only
  induction entries with
  | nil => exact ⟨⟨[], names⟩, rfl, rfl, small, by simp⟩
  | cons entry rest ih =>
    obtain ⟨size, others⟩ := List.forall_mem_cons.mp whole
    have record : record? SymbolRecord entry 0 = some (Layout.ofBytes entry.data.toList) := by
      have all : (0 : UInt64).toNat + Layout.size SymbolRecord = entry.size := size.symm
      rw [record?_eq (by decide) (by omega), decode?, slice?, if_pos all.le, all]
      change some (Layout.ofBytes (entry.extract 0 entry.size).data.toList) = _
      rw [ByteArray.extract_zero_size]
    have skipped := ih others
    rw [nextAmong, record, List.filterMap_cons, GlobalSymbol.ofRecord?]
    dsimp only
    cases Binding.ofInfo? (Layout.ofBytes entry.data.toList : SymbolRecord).info with
    | none => exact skipped
    | some binding =>
      dsimp only
      split
      · exact skipped
      · rw [nameAt_eq small]
        cases GlobalSymbol.nameAt names (Layout.ofBytes entry.data.toList : SymbolRecord).name with
        | error fault => exact ⟨⟨rest, names⟩, rfl, rfl, small, others⟩
        | ok name => exact ⟨⟨rest, names⟩, rfl, rfl, small, others⟩

/-- The iterator over a symbol table has the items of the table to give. -/
theorem start_cases (symbols : ByteArray) {names : ByteArray} (small : names.size < 2 ^ 63) :
    (∃ fault, start symbols names = .error fault ∧ globalSymbols symbols names = .error fault) ∨
      ∃ iterator : Symbols, start symbols names = .ok iterator ∧
        globalSymbols symbols names = .ok iterator.items ∧ iterator.Valid := by
  rw [start, globalSymbols]
  split
  · next whole =>
    have same : (records SymbolRecord symbols).tail.filterMap (GlobalSymbol.ofRecord? names) =
        items ⟨(parts 24 symbols).tail, names⟩ := by
      rw [items, records, parts, ← List.map_tail, ← List.map_tail, List.filterMap_map,
        List.filterMap_map]
      rfl
    have sizes : ∀ entry ∈ (parts 24 symbols).tail, entry.size = 24 := by
      intro entry listed
      obtain ⟨index, inside, rfl⟩ := List.mem_map.mp (List.mem_of_mem_tail listed)
      have lower := List.mem_range.mp inside
      rw [ByteArray.size_extract]
      omega
    rw [same]
    exact .inr ⟨_, rfl, rfl, small, sizes⟩
  · exact .inl ⟨_, rfl, rfl⟩

end Symbols

namespace File

/-- The iterator over the symbols of a file. -/
def globalSymbols (file : File) : Run (Except Error Symbols) := do
  match ← file.find symbolSection with
  | .error error => return .error error
  | .ok none => return .error (.malformed (.missingSection symbolSection))
  | .ok (some symbols) =>
    match ← file.keptNames with
    | none => return .error (.malformed (.missingSection symbolNameSection))
    | some names =>
      match Symbols.start symbols.data names with
      | .error fault => return .error (.malformed fault)
      | .ok iterator => return .ok iterator

/-- The symbol names are a part of the file. -/
theorem Represents.small_names {file : File} {elf : ElfFile} (same : file.Represents elf)
    {names : ByteArray} (kept : elf.symbolNames = some names) : names.size < 2 ^ 63 := by
  have still := same.kept
  have small := same.small
  rw [kept, keptNames] at still
  split at still
  · cases still
  · next start stop _ =>
    rw [range] at still
    split at still
    · next both =>
      cases still
      rw [ByteArray.size_extract]
      omega
    · cases still

/-- The symbols of a file are walked over without a trap, if and as in this library. -/
theorem Represents.globalSymbols_cases {file : File} {elf : ElfFile}
    (same : file.Represents elf) :
    (∃ error, file.globalSymbols = .ok (.error error) ∧ elf.globalSymbols = .error error) ∨
      ∃ iterator : Symbols, file.globalSymbols = .ok (.ok iterator) ∧
        elf.globalSymbols = .ok iterator.items ∧ iterator.Valid := by
  rw [globalSymbols, ElfFile.globalSymbols, same.find_eq, ok_bind]
  cases elf.find symbolSection with
  | error error => exact .inl ⟨error, rfl, rfl⟩
  | ok found =>
    cases found with
    | none => exact .inl ⟨_, rfl, rfl⟩
    | some symbols =>
      dsimp only
      rw [same.kept, ok_bind]
      cases kept : elf.symbolNames with
      | none => exact .inl ⟨_, rfl, rfl⟩
      | some names =>
        dsimp only
        rcases Symbols.start_cases symbols.data (same.small_names kept) with
          ⟨fault, failed, refused⟩ | ⟨iterator, started, items, valid⟩
        · rw [failed, refused]
          exact .inl ⟨_, rfl, rfl⟩
        · rw [started, items]
          exact .inr ⟨iterator, rfl, rfl, valid⟩

end File

/-- An open file on a machine, with the iterators that were handed out. -/
structure Caller where
  /-- The file. -/
  file : File
  /-- The iterators. -/
  iterators : List Symbols

namespace Caller

/-- The answer to one call, and what is left behind. -/
def call (caller : Caller) : Call → Run (Answer × Caller)
  | .find name => do
    let result ← caller.file.find name
    return (.found result, caller)
  | .symbolNames => do
    let content ← caller.file.keptNames
    return (.names content, caller)
  | .globalSymbols => do
    match ← caller.file.globalSymbols with
    | .error error => return (.started (some error), caller)
    | .ok iterator =>
      return (.started none, { caller with iterators := caller.iterators ++ [iterator] })
  | .next iterator =>
    match caller.iterators[iterator]? with
    | none => return (.item none, caller)
    | some symbols => do
      let (item, rest) ← symbols.next
      return (.item item, { caller with iterators := caller.iterators.set iterator rest })

/-- The answers to calls that follow each other. -/
def answers (caller : Caller) : List Call → Run (List Answer)
  | [] => return []
  | call :: rest => do
    let (answer, behind) ← caller.call call
    let others ← behind.answers rest
    return answer :: others

/-- The same caller, on a machine and in this library. -/
structure Represents (caller : Caller) (spec : KernelExports.Caller) : Prop where
  /-- The file is the same. -/
  file : caller.file.Represents spec.file
  /-- The iterators have the same items to give. -/
  items : spec.iterators = caller.iterators.map Symbols.items
  /-- The records of all iterators are whole. -/
  valid : ∀ iterator ∈ caller.iterators, iterator.Valid

/-- One call does not trap. The answers are the same, and so are the callers that are left. -/
theorem call_eq {caller : Caller} {spec : KernelExports.Caller} (same : caller.Represents spec)
    (call : Call) :
    ∃ behind : Caller, caller.call call = .ok ((spec.call call).1, behind) ∧
      behind.Represents (spec.call call).2 := by
  cases call with
  | find name =>
    rw [Caller.call, same.file.find_eq]
    exact ⟨caller, rfl, same⟩
  | symbolNames =>
    rw [Caller.call, same.file.kept]
    exact ⟨caller, rfl, same⟩
  | globalSymbols =>
    rw [Caller.call, KernelExports.Caller.call]
    rcases same.file.globalSymbols_cases with
      ⟨error, failed, refused⟩ | ⟨iterator, started, items, valid⟩
    · rw [failed, refused]
      exact ⟨caller, rfl, same⟩
    · rw [started, items]
      have all_items : spec.iterators ++ [iterator.items] =
          (caller.iterators ++ [iterator]).map Symbols.items := by
        rw [List.map_append, same.items]
        rfl
      have all_valid : ∀ other ∈ caller.iterators ++ [iterator], other.Valid := by
        intro other listed
        rcases List.mem_append.mp listed with old | new
        · exact same.valid other old
        · rw [List.mem_singleton.mp new]
          exact valid
      exact ⟨_, rfl, same.file, all_items, all_valid⟩
  | next number =>
    rw [Caller.call, KernelExports.Caller.call, same.items, List.getElem?_map]
    cases stands : caller.iterators[number]? with
    | none => exact ⟨caller, rfl, same⟩
    | some iterator =>
      obtain ⟨rest, step, items, valid⟩ :=
        Symbols.next_eq (same.valid iterator (List.mem_of_getElem? stands))
      dsimp only [Option.map_some]
      rw [step]
      have all_items : (caller.iterators.map Symbols.items).set number iterator.items.tail =
          (caller.iterators.set number rest).map Symbols.items := by
        rw [List.map_set, items]
      have all_valid : ∀ other ∈ caller.iterators.set number rest, other.Valid := by
        intro other listed
        rcases List.mem_or_eq_of_mem_set listed with old | rfl
        · exact same.valid other old
        · exact valid
      exact ⟨_, rfl, same.file, all_items, all_valid⟩

/-- No sequence of calls traps. -/
theorem answers_eq {caller : Caller} {spec : KernelExports.Caller} (same : caller.Represents spec)
    (calls : List Call) : caller.answers calls = .ok (spec.answers calls) := by
  induction calls generalizing caller spec with
  | nil => rfl
  | cons call rest ih =>
    obtain ⟨behind, step, left⟩ := call_eq same call
    rw [answers, step, ok_bind]
    dsimp only
    rw [ih left]
    rfl

end Caller

/-- Opens a file and makes calls on it. -/
def session (data : ByteArray) (calls : List Call) : Run (Except Error (List Answer)) := do
  match ← File.ofBytes data with
  | .error error => return .error error
  | .ok file =>
    let answers ← (⟨file, []⟩ : Caller).answers calls
    return .ok answers

/-- Opening a file that can be mapped, and any calls on it, do not trap. -/
theorem session_eq {data : ByteArray} (small : data.size < 2 ^ 63) (path : String)
    (calls : List Call) :
    session data calls = .ok ((ElfFile.ofBytes path data).map fun file =>
      (⟨file, []⟩ : KernelExports.Caller).answers calls) := by
  rw [session]
  rcases File.ofBytes_cases small path with
    ⟨error, failed, refused⟩ | ⟨file, elf, opened, opened', same⟩
  · rw [failed, refused]
    rfl
  · have same_caller : Caller.Represents ⟨file, []⟩ ⟨elf, []⟩ := ⟨same, rfl, by simp⟩
    rw [opened, opened', ok_bind]
    dsimp only
    rw [Caller.answers_eq same_caller]
    rfl

/-- Nothing that is read from bytes that can be mapped traps. Taken as a file, the bytes are opened,
and any calls are answered, as by this library; taken as a list of exports, any number of steps over
them give its items. -/
theorem never_traps (data : ByteArray) (small : data.size < 2 ^ 63) :
    (∀ path calls, session data calls = .ok ((ElfFile.ofBytes path data).map fun file =>
      (⟨file, []⟩ : KernelExports.Caller).answers calls)) ∧
    ∀ number, splitSteps data number = .ok ((ExportNames.split data).map fun items =>
      (List.range number).map fun index => items[index]?) :=
  ⟨session_eq small, splitSteps_eq small⟩

/-- Calls that hand out two iterators, step both of them, and step the first one beyond its end. -/
def mixedCalls : List Call :=
  [.next 0, .find exportSection, .symbolNames, .globalSymbols, .next 0, .globalSymbols, .next 0,
    .next 1]

/-- A file with one symbol gives it once to each iterator, and nothing without one. -/
theorem answers_mixedCalls {file : ElfFile} {listed : Section} {names : ByteArray}
    {symbol : GlobalSymbol} (lookup : file.find exportSection = .ok (some listed))
    (kept : file.symbolNames = some names) (symbols : file.globalSymbols = .ok [.ok symbol]) :
    (⟨file, []⟩ : KernelExports.Caller).answers mixedCalls =
      [.item none, .found (.ok (some listed)), .names (some names), .started none,
        .item (some (.ok symbol)), .started none, .item none, .item (some (.ok symbol))] := by
  simp [mixedCalls, KernelExports.Caller.answers, KernelExports.Caller.call, lookup, kept, symbols]

/-- A module answers these calls. Bytes that are no file are refused, and as a list they are a name,
padding and a name that is not text. -/
theorem never_traps_signedModule :
    signedModule.file.size < 2 ^ 63 ∧
    (∃ listed, listed.data = (["alpha"].flatMap terminated).toByteArray ∧
      session signedModule.file mixedCalls =
        .ok (.ok [.item none, .found (.ok (some listed)),
          .names (some (SymbolImage.names [⟨"alpha", 1, 16⟩]).toByteArray), .started none,
          .item (some (.ok ⟨"alpha", 16, .global⟩)), .started none, .item none,
          .item (some (.ok ⟨"alpha", 16, .global⟩))])) ∧
    (ByteArray.mk #[0x61, 0, 0, 0xff, 0]).size < 2 ^ 63 ∧
    session ⟨#[0x61, 0, 0, 0xff, 0]⟩ [.find exportSection, .globalSymbols, .next 0] =
      .ok (.error .notElf) ∧
    splitSteps ⟨#[0x61, 0, 0, 0xff, 0]⟩ 3 =
      .ok (.ok [some (.ok ⟨"a", 0⟩), some (.error (.exportNameEncoding 3 (.malformed 0 1))),
        none]) := by
  have contains := signedModule_contains
  have large := contains.size_file_lt
  have small : (ByteArray.mk #[0x61, 0, 0, 0xff, 0]).size < 2 ^ 63 := by decide
  obtain ⟨module_calls, -⟩ := never_traps signedModule.file large
  obtain ⟨text_calls, splits⟩ := never_traps _ small
  have held : (signedModule.opened [⟨"alpha", 1, 16⟩] "plain.ko").Holds exportSection
      (["alpha"].flatMap terminated).toByteArray :=
    contains.holds "plain.ko" (FileImage.mem_readSections.mpr (.inl rfl))
  obtain ⟨listed, lookup, content⟩ := ElfFile.holds_iff_find.mp held
  have answers := answers_mixedCalls lookup rfl (contains.globalSymbols_opened "plain.ko")
  refine ⟨large, ⟨listed, content, ?_⟩, small, ?_, ?_⟩
  · rw [module_calls "plain.ko", contains.ofBytes_file "plain.ko", Except.map, answers]
  · rw [text_calls ""]
    rfl
  · rw [splits]
    rfl

end Machine

end KernelExports
