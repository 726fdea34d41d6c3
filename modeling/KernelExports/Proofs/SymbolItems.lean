import KernelExports.Proofs.SectionLookup

/-!
# The items of a symbol table

Which records of a symbol table become items, and when no item is an error. A record becomes an item
if it is not the reserved one, its binding is global or weak and it has a name; the item is an error
exactly if the string table has no text at that place.
-/

namespace KernelExports

open StringTable

namespace GlobalSymbol

/-- The name at a place is the text of the entry there. -/
theorem nameAt_eq_ok_iff {names : ByteArray} {offset : UInt32} {name : String} :
    nameAt names offset = .ok name ↔ HasEntry names offset.toNat (Utf8.encode name) := by
  rw [← entry_eq_ok_iff, nameAt]
  cases h : entry names offset.toNat with
  | error fault => cases fault <;> simp
  | ok bytes =>
    dsimp only
    rw [Except.ok.injEq, @eq_comm _ bytes, ← Utf8.decode_eq_ok_iff]
    cases Utf8.decode bytes <;> simp

/-- Where a name cannot be read there is none. -/
theorem no_entry_of_nameAt_error {names : ByteArray} {offset : UInt32}
    {fault : Malformation} (failed : nameAt names offset = .error fault) :
    ¬ ∃ name, HasEntry names offset.toNat (Utf8.encode name) := by
  rintro ⟨name, entry⟩
  rw [nameAt_eq_ok_iff.mpr entry] at failed
  cases failed

/-- The binding lets a symbol back an export. -/
def IsExported (record : SymbolRecord) : Prop :=
  (record.info >>> 4 = 1 ∨ record.info >>> 4 = 2) ∧ record.name ≠ 0

/-- Only the numbers 1 and 2 are bindings of interest. -/
theorem ofInfo?_eq_none_iff {info : UInt8} :
    Binding.ofInfo? info = none ↔ ¬ (info >>> 4 = 1 ∨ info >>> 4 = 2) := by
  rw [Binding.ofInfo?]
  split
  · simp_all
  · split <;> simp_all

/-- A binding is recognised by its number. -/
theorem ofInfo?_eq_some_iff {info : UInt8} {binding : Binding} :
    Binding.ofInfo? info = some binding ↔ info >>> 4 = binding.code := by
  rw [Binding.ofInfo?]
  by_cases one : info >>> 4 = 1
  · cases binding <;> simp [one, Binding.code]
  · by_cases two : info >>> 4 = 2
    · cases binding <;> simp [two, Binding.code]
    · cases binding <;> simp [one, two, Binding.code]

/-- A record gives nothing exactly if it cannot back an export. -/
theorem ofRecord?_eq_none_iff {names : ByteArray} {record : SymbolRecord} :
    ofRecord? names record = none ↔ ¬ IsExported record := by
  rw [ofRecord?, IsExported, not_and_or, ← ofInfo?_eq_none_iff]
  cases Binding.ofInfo? record.info with
  | none => simp
  | some binding =>
    dsimp only
    split
    · next unnamed => simp [unnamed]
    · next named => split <;> simp [named]

/-- A record gives a symbol exactly if it can back an export and its name can be read. -/
theorem ofRecord?_eq_some_ok_iff {names : ByteArray} {record : SymbolRecord}
    {symbol : GlobalSymbol} :
    ofRecord? names record = some (.ok symbol) ↔
      Binding.ofInfo? record.info = some symbol.binding ∧ record.name ≠ 0 ∧
        HasEntry names record.name.toNat (Utf8.encode symbol.name) ∧
        symbol.value = record.value := by
  obtain ⟨name, value, binding⟩ := symbol
  rw [← nameAt_eq_ok_iff, ofRecord?]
  cases Binding.ofInfo? record.info with
  | none => simp
  | some binding' =>
    dsimp only
    split
    · next unnamed => simp [unnamed]
    · next named =>
      cases nameAt names record.name with
      | error fault => simp
      | ok name' =>
        simp only [Option.some.injEq, Except.ok.injEq, GlobalSymbol.mk.injEq, ne_eq, named,
          not_false_eq_true, true_and]
        constructor
        · intro h
          exact ⟨h.2.2, h.1, h.2.1.symm⟩
        · intro h
          exact ⟨h.2.1, h.2.2.symm, h.1⟩

end GlobalSymbol

/-- There is no first fault exactly if there is none. -/
theorem firstError?_eq_none_iff {ε α : Type} {items : List (Except ε α)} :
    firstError? items = none ↔ ∀ item ∈ items, ∃ result, item = .ok result := by
  rw [firstError?, List.findSome?_eq_none_iff]
  refine forall₂_congr fun item _ => ?_
  cases item <;> simp

/-- Without an error all results come before the first error. -/
theorem map_ok_beforeError {ε α : Type} {items : List (Except ε α)}
    (h : firstError? items = none) : (beforeError items).map .ok = items := by
  rw [firstError?_eq_none_iff] at h
  rw [beforeError]
  induction items with
  | nil => rfl
  | cons item rest ih =>
    obtain ⟨⟨result, rfl⟩, others⟩ := List.forall_mem_cons.mp h
    rw [List.takeWhile_cons_of_pos rfl, List.filterMap_cons]
    exact congrArg _ (ih others)

/-- A result comes before the first fault behind it. -/
theorem beforeError_ok_cons {ε α : Type} (result : α) (rest : List (Except ε α)) :
    beforeError (.ok result :: rest) = result :: beforeError rest :=
  rfl

/-- Nothing comes before a fault at the start. -/
theorem beforeError_error_cons {ε α : Type} (fault : ε) (rest : List (Except ε α)) :
    beforeError (.error fault :: rest) = [] :=
  rfl

/-- A result stands before the first error if nothing but results stands before it. -/
theorem mem_beforeError_iff {ε α : Type} {items : List (Except ε α)} {result : α} :
    result ∈ beforeError items ↔
      ∃ (before : List α) (after : List (Except ε α)),
        items = before.map .ok ++ .ok result :: after := by
  induction items with
  | nil =>
    refine iff_of_false List.not_mem_nil ?_
    simp
  | cons item rest ih =>
    cases item with
    | error fault =>
      rw [beforeError_error_cons]
      refine iff_of_false List.not_mem_nil ?_
      rintro ⟨before, after, split⟩
      cases before <;> cases split
    | ok first =>
      rw [beforeError_ok_cons, List.mem_cons, ih]
      constructor
      · rintro (rfl | ⟨before, after, rfl⟩)
        · exact ⟨[], rest, rfl⟩
        · exact ⟨first :: before, after, rfl⟩
      · rintro ⟨before, after, split⟩
        cases before with
        | nil =>
          cases split
          exact .inl rfl
        | cons head before =>
          cases split
          exact .inr ⟨before, after, rfl⟩

/-- The first error is the one before which nothing but results stands. -/
theorem firstError?_eq_some_iff {ε α : Type} {items : List (Except ε α)} {fault : ε} :
    firstError? items = some fault ↔
      ∃ (before : List α) (after : List (Except ε α)),
        items = before.map .ok ++ .error fault :: after := by
  induction items with
  | nil =>
    refine iff_of_false (by simp [firstError?]) ?_
    simp
  | cons item rest ih =>
    cases item with
    | error first =>
      change some first = some fault ↔ _
      rw [Option.some_inj]
      constructor
      · rintro rfl
        exact ⟨[], rest, rfl⟩
      · rintro ⟨before, after, split⟩
        cases before <;> cases split
        rfl
    | ok first =>
      change firstError? rest = some fault ↔ _
      rw [ih]
      constructor
      · rintro ⟨before, after, rfl⟩
        exact ⟨first :: before, after, rfl⟩
      · rintro ⟨before, after, split⟩
        cases before with
        | nil => cases split
        | cons head before =>
          cases split
          exact ⟨before, after, rfl⟩

/-- The symbols of a table of whole records are the items of all but the first one. -/
theorem globalSymbols_eq_ok_iff {symbols names : ByteArray}
    {items : List (Except Malformation GlobalSymbol)} :
    globalSymbols symbols names = .ok items ↔
      symbols.size % 24 = 0 ∧
        (records SymbolRecord symbols).tail.filterMap (GlobalSymbol.ofRecord? names) = items := by
  rw [globalSymbols]
  split
  · next whole => simp [whole]
  · next ragged => simp [ragged]

namespace ElfFile

/-- The symbols of a file are those of its table, by the names that it has kept. -/
theorem globalSymbols_eq_ok_iff {file : ElfFile}
    {items : List (Except Malformation GlobalSymbol)} :
    file.globalSymbols = .ok items ↔
      ∃ symbols names, file.Holds symbolSection symbols ∧ file.symbolNames = some names ∧
        KernelExports.globalSymbols symbols names = .ok items := by
  simp only [holds_iff_find]
  rw [globalSymbols]
  constructor
  · intro h
    split at h
    · cases h
    · cases h
    · next found located =>
      split at h
      · cases h
      · next names kept =>
        split at h
        · cases h
        · next listed read =>
          cases h
          exact ⟨found.data, names, ⟨found, located, rfl⟩, kept, read⟩
  · intro h
    obtain ⟨_, names, ⟨found, located, rfl⟩, kept, read⟩ := h
    rw [located, kept]
    dsimp only
    rw [read]

end ElfFile

end KernelExports
