import KernelExports.Proofs.SymbolEnumeration

/-!
# Visits of symbols

A visit of a symbol table hands symbols to a handler until an entry comes up whose name cannot be
read, while an iterator over the same table gives a fault there and goes on. Whatever the handler
does, it is handed the symbols that the iterator gives before its first fault, each once and in the
same order, and nothing else. The outcome of the visit is this fault, or none if there is none. A
table without an iterator is not visited at all.

A visit is looked at twice here: as a walk over the list of items, and as a loop that asks an
iterator on a machine for one item after the other.
-/

namespace KernelExports

/-- What a visit of the given items comes to: the results that are handed over, and the outcome. -/
inductive ComesTo {ε α : Type} (items : List (Except ε α)) : List α → Except ε Unit → Prop
  /-- There is no error, and everything is handed over. -/
  | whole {results : List α} (only : items = results.map .ok) : ComesTo items results (.ok ())
  /-- The first error ends the visit, whatever stands behind it. -/
  | stopped {results : List α} {fault : ε} {behind : List (Except ε α)}
    (first : items = results.map .ok ++ .error fault :: behind) :
    ComesTo items results (.error fault)

section Visits

variable {ε α : Type} {results : List α} {outcome : Except ε Unit}

/-- No items come to no results. -/
@[simp] theorem comesTo_nil :
    ComesTo ([] : List (Except ε α)) results outcome ↔ results = [] ∧ outcome = .ok () := by
  constructor
  · rintro (only | first)
    · exact ⟨List.map_eq_nil_iff.mp only.symm, rfl⟩
    · simp at first
  · rintro ⟨rfl, rfl⟩
    exact .whole rfl

/-- A fault at the start comes to no results and is the outcome. -/
@[simp] theorem comesTo_error_cons {fault : ε} {rest : List (Except ε α)} :
    ComesTo (.error fault :: rest) results outcome ↔ results = [] ∧ outcome = .error fault := by
  constructor
  · rintro (only | first)
    · cases results <;> cases only
    · cases results with
      | nil =>
        cases first
        exact ⟨rfl, rfl⟩
      | cons result others => cases first
  · rintro ⟨rfl, rfl⟩
    exact .stopped rfl

/-- A result comes before those of the items behind it. -/
@[simp] theorem comesTo_ok_cons {result : α} {rest : List (Except ε α)} :
    ComesTo (.ok result :: rest) results outcome ↔
      ∃ others, results = result :: others ∧ ComesTo rest others outcome := by
  constructor
  · rintro (only | first)
    · cases results with
      | nil => cases only
      | cons first others =>
        cases only
        exact ⟨others, rfl, .whole rfl⟩
    · cases results with
      | nil => cases first
      | cons head others =>
        cases first
        exact ⟨others, rfl, .stopped rfl⟩
  · rintro ⟨others, rfl, only | first⟩
    · exact .whole (congrArg _ only)
    · exact .stopped (congrArg _ first)

/-- Every list of items comes to some results and one outcome. -/
theorem exists_comesTo (items : List (Except ε α)) :
    ∃ results outcome, ComesTo items results outcome := by
  induction items with
  | nil => exact ⟨[], .ok (), comesTo_nil.mpr ⟨rfl, rfl⟩⟩
  | cons item rest ih =>
    obtain ⟨others, outcome, comes⟩ := ih
    cases item with
    | error fault => exact ⟨[], .error fault, comesTo_error_cons.mpr ⟨rfl, rfl⟩⟩
    | ok result => exact ⟨result :: others, outcome, comesTo_ok_cons.mpr ⟨others, rfl, comes⟩⟩

/-- A visit comes to a good end if there is no error at all. -/
theorem ComesTo.ok_iff {items : List (Except ε α)} (comes : ComesTo items results outcome) :
    outcome = .ok () ↔ ∀ item ∈ items, ∃ result, item = .ok result := by
  cases comes with
  | whole only =>
    rw [only]
    exact iff_of_true rfl (List.forall_mem_map.mpr fun result _ => ⟨result, rfl⟩)
  | stopped first =>
    rw [first]
    refine iff_of_false (by simp) fun all => ?_
    obtain ⟨result, failed⟩ := all _ (List.mem_append_right _ List.mem_cons_self)
    cases failed

variable {m : Type → Type} [Monad m] [LawfulMonad m]

/-- The handler is handed the results before the first error, one after the other. -/
theorem visitItems_eq {items : List (Except ε α)} (comes : ComesTo items results outcome)
    (handler : α → m Unit) :
    visitItems handler items = do
      results.forM handler
      return outcome := by
  induction items generalizing results with
  | nil =>
    obtain ⟨rfl, rfl⟩ := comesTo_nil.mp comes
    simp [visitItems]
  | cons item rest ih =>
    cases item with
    | error fault =>
      obtain ⟨rfl, rfl⟩ := comesTo_error_cons.mp comes
      simp [visitItems]
    | ok result =>
      obtain ⟨others, rfl, later⟩ := comesTo_ok_cons.mp comes
      simp [visitItems, ih later]

end Visits

namespace Machine

namespace Symbols

/-- Asking for an item uses up a record. -/
theorem length_lt_of_nextAmong {names : ByteArray} {entries rest : List ByteArray}
    {item : Except Malformation GlobalSymbol}
    (step : nextAmong names entries = .ok (some item, rest)) : rest.length < entries.length := by
  induction entries with
  | nil => cases step
  | cons entry others ih =>
    have skipped (same : nextAmong names others = .ok (some item, rest)) :
        rest.length < (entry :: others).length :=
      Nat.lt_trans (ih same) (Nat.lt_succ_self _)
    rw [nextAmong] at step
    split at step
    · cases step
    · split at step
      · exact skipped step
      · split at step
        · exact skipped step
        · obtain ⟨name, -, given⟩ := bind_eq_ok_iff.mp step
          cases given
          exact Nat.lt_succ_self _

/-- A step that gives an item leaves fewer records. -/
theorem length_lt_of_next {symbols rest : Symbols} {item : Except Malformation GlobalSymbol}
    (step : symbols.next = .ok (some item, rest)) :
    rest.entries.length < symbols.entries.length := by
  obtain ⟨⟨given, left⟩, among, same⟩ := bind_eq_ok_iff.mp step
  cases same
  exact length_lt_of_nextAmong among

/-- Asks for one item after the other and hands the symbols to `handler`, up to the first item that
is a fault. -/
def visit {m : Type → Type} [Monad m] (handler : GlobalSymbol → m Unit) (symbols : Symbols) :
    m (Run (Except Malformation Unit)) :=
  match _step : symbols.next with
  | .error trap => return .error trap
  | .ok (none, _) => return .ok (.ok ())
  | .ok (some (.error fault), _) => return .ok (.error fault)
  | .ok (some (.ok symbol), rest) => do
    handler symbol
    rest.visit handler
termination_by symbols.entries.length
decreasing_by exact length_lt_of_next _step

section Loop

variable {m : Type → Type} [Monad m]

/-- Without a next item the visit is over. -/
theorem visit_of_none {symbols rest : Symbols} (step : symbols.next = .ok (none, rest))
    (handler : GlobalSymbol → m Unit) : symbols.visit handler = return .ok (.ok ()) := by
  rw [visit]
  split <;> simp_all

/-- At a fault the visit is over, and the fault is its outcome. -/
theorem visit_of_error {symbols rest : Symbols} {fault : Malformation}
    (step : symbols.next = .ok (some (.error fault), rest)) (handler : GlobalSymbol → m Unit) :
    symbols.visit handler = return .ok (.error fault) := by
  rw [visit]
  split <;> simp_all

/-- At a symbol the visit goes on once the handler is done. -/
theorem visit_of_ok {symbols rest : Symbols} {symbol : GlobalSymbol}
    (step : symbols.next = .ok (some (.ok symbol), rest)) (handler : GlobalSymbol → m Unit) :
    symbols.visit handler = handler symbol >>= fun _ => rest.visit handler := by
  rw [visit]
  split <;> simp_all

/-- The loop does not trap, and it does what a walk over the items does. -/
theorem visit_eq [LawfulMonad m] {symbols : Symbols} (valid : symbols.Valid)
    {handed : List GlobalSymbol} {outcome : Except Malformation Unit}
    (comes : ComesTo symbols.items handed outcome) (handler : GlobalSymbol → m Unit) :
    symbols.visit handler = do
      handed.forM handler
      return .ok outcome := by
  -- On the items that are left, because a step may use up any number of records.
  generalize given : symbols.items = items at comes
  induction items generalizing symbols handed with
  | nil =>
    obtain ⟨rest, step, -, -⟩ := next_eq valid
    obtain ⟨rfl, rfl⟩ := comesTo_nil.mp comes
    rw [given] at step
    rw [visit_of_none step]
    simp
  | cons item others ih =>
    obtain ⟨rest, step, left, valid⟩ := next_eq valid
    rw [given] at step left
    cases item with
    | error fault =>
      obtain ⟨rfl, rfl⟩ := comesTo_error_cons.mp comes
      rw [visit_of_error step]
      simp
    | ok symbol =>
      obtain ⟨later, rfl, behind⟩ := comesTo_ok_cons.mp comes
      rw [visit_of_ok step, ih valid left behind]
      simp

end Loop

end Symbols

/-- Hands each global symbol to `handler`, as long as the iterator over them gives no fault. -/
def visitSymbols {m : Type → Type} [Monad m] (symbols names : ByteArray)
    (handler : GlobalSymbol → m Unit) : m (Run (Except Malformation Unit)) :=
  match Symbols.start symbols names with
  | .error fault => return .ok (.error fault)
  | .ok iterator => iterator.visit handler

end Machine

/-- How a visit of a symbol table goes, whatever the handler does with what it is handed. -/
structure VisitsAs (symbols names : ByteArray) (handed : List GlobalSymbol)
    (outcome : Except Malformation Unit) : Prop where
  /-- The handler is handed the given symbols, one after the other, and nothing else. -/
  visit : ∀ {m : Type → Type} [Monad m] [LawfulMonad m] (handler : GlobalSymbol → m Unit),
    visitGlobalSymbols symbols names handler = do
      handed.forM handler
      return outcome
  /-- The loop over an iterator does the same, without a trap. -/
  loop : names.size < 2 ^ 63 →
    ∀ {m : Type → Type} [Monad m] [LawfulMonad m] (handler : GlobalSymbol → m Unit),
      Machine.visitSymbols symbols names handler = do
        handed.forM handler
        return .ok outcome

namespace Machine.Symbols

/-- A table has no iterator exactly if it is refused, and for the same reason. -/
theorem start_eq_error_iff (symbols : ByteArray) {names : ByteArray}
    (small : names.size < 2 ^ 63) {fault : Malformation} :
    start symbols names = .error fault ↔ globalSymbols symbols names = .error fault := by
  rcases start_cases symbols small with ⟨fault', failed, refused⟩ | ⟨iterator, started, listed, -⟩
  · simp [failed, refused]
  · simp [started, listed]

/-- An iterator over a table that is listed has the listed items to give. -/
theorem exists_start {symbols names : ByteArray} (small : names.size < 2 ^ 63)
    {items : List (Except Malformation GlobalSymbol)}
    (listed : globalSymbols symbols names = .ok items) :
    ∃ iterator : Symbols, start symbols names = .ok iterator ∧ iterator.items = items ∧
      iterator.Valid := by
  rcases start_cases symbols small with ⟨fault, -, refused⟩ | ⟨iterator, started, listed', valid⟩
  · rw [listed] at refused
    cases refused
  · rw [listed, Except.ok.injEq] at listed'
    exact ⟨iterator, started, listed'.symm, valid⟩

/-- The items of a table are those that an iterator gives until its end. -/
theorem exists_drains_iff {symbols names : ByteArray} (small : names.size < 2 ^ 63)
    {items : List (Except Malformation GlobalSymbol)} :
    (∃ iterator, start symbols names = .ok iterator ∧ Drains next iterator items) ↔
      globalSymbols symbols names = .ok items := by
  constructor
  · rintro ⟨iterator, started, drains⟩
    cases listed : globalSymbols symbols names with
    | error fault =>
      rw [(start_eq_error_iff symbols small).mpr listed] at started
      cases started
    | ok items' =>
      obtain ⟨_, started', rfl, valid⟩ := exists_start small listed
      rw [started, Except.ok.injEq] at started'
      subst started'
      rw [(drains_iff valid).mp drains]
  · intro listed
    obtain ⟨iterator, started, rfl, valid⟩ := exists_start small listed
    exact ⟨iterator, started, (drains_iff valid).mpr rfl⟩

end Machine.Symbols

/-- A table that is refused is not visited. -/
theorem visitsAs_of_error {symbols names : ByteArray} {fault : Malformation}
    (refused : globalSymbols symbols names = .error fault) :
    VisitsAs symbols names [] (.error fault) where
  visit handler := by
    rw [visitGlobalSymbols, refused]
    simp
  loop small _ _ _ handler := by
    rw [Machine.visitSymbols, (Machine.Symbols.start_eq_error_iff symbols small).mpr refused]
    simp

/-- A table that is listed is visited as far as its items allow. -/
theorem visitsAs_of_comesTo {symbols names : ByteArray}
    {items : List (Except Malformation GlobalSymbol)} {handed : List GlobalSymbol}
    {outcome : Except Malformation Unit} (listed : globalSymbols symbols names = .ok items)
    (comes : ComesTo items handed outcome) : VisitsAs symbols names handed outcome where
  visit handler := by
    rw [visitGlobalSymbols, listed]
    exact visitItems_eq comes handler
  loop small _ _ _ handler := by
    obtain ⟨iterator, started, rfl, valid⟩ := Machine.Symbols.exists_start small listed
    rw [Machine.visitSymbols, started]
    exact Machine.Symbols.visit_eq valid comes handler

/-- A visit of a symbol table hands over the symbols that the iterator gives before its first fault,
once each and in the same order, and nothing else, whatever the handler does. It comes to a good end
exactly if there is an iterator and none of its items is a fault. Otherwise the outcome is the
reason why there is no iterator, and then nothing is handed over, or the first fault among the
items. -/
theorem visit_stops_at_fault (symbols names : ByteArray) :
    (∀ fault, globalSymbols symbols names = .error fault →
      VisitsAs symbols names [] (.error fault)) ∧
    (∀ items, globalSymbols symbols names = .ok items →
      ∃ handed outcome, ComesTo items handed outcome ∧
        (outcome = .ok () ↔ ∀ item ∈ items, ∃ symbol, item = .ok symbol) ∧
        VisitsAs symbols names handed outcome) ∧
    (names.size < 2 ^ 63 →
      (∀ fault, Machine.Symbols.start symbols names = .error fault ↔
        globalSymbols symbols names = .error fault) ∧
      ∀ items, (∃ iterator, Machine.Symbols.start symbols names = .ok iterator ∧
          Machine.Drains Machine.Symbols.next iterator items) ↔
        globalSymbols symbols names = .ok items) := by
  refine ⟨fun _ => visitsAs_of_error, ?_, fun small => ⟨fun _ => ?_, fun _ => ?_⟩⟩
  · intro items listed
    obtain ⟨handed, outcome, comes⟩ := exists_comesTo items
    exact ⟨handed, outcome, comes, comes.ok_iff, visitsAs_of_comesTo listed comes⟩
  · exact Machine.Symbols.start_eq_error_iff symbols small
  · exact Machine.Symbols.exists_drains_iff small

/-- A reserved record, a weak symbol, a local one and a global one whose names are outside of the
string table, and a global symbol behind them. -/
def interruptedSymbols : ByteArray :=
  encode (⟨1, 0x10, 0, 1, 0x20, 8⟩ : SymbolRecord) ++
    encode (⟨1, 0x21, 3, 2, 0x80, 16⟩ : SymbolRecord) ++
    encode (⟨9, 0x02, 0, 1, 0x40, 8⟩ : SymbolRecord) ++
    encode (⟨9, 0x12, 0, 1, 0x60, 8⟩ : SymbolRecord) ++
    encode (⟨1, 0x10, 0, 1, 0xa0, 8⟩ : SymbolRecord)

/-- The local symbol stops neither the iterator nor the visit, the global one only the visit. -/
theorem interruptedSymbols_visited :
    (ByteArray.mk #[0, 0x62, 0]).size < 2 ^ 63 ∧
    (∃ iterator, Machine.Symbols.start interruptedSymbols ⟨#[0, 0x62, 0]⟩ = .ok iterator ∧
      Machine.Drains Machine.Symbols.next iterator
        [.ok ⟨"b", 0x80, .weak⟩, .error (.symbolNameOffset 9 3), .ok ⟨"b", 0xa0, .global⟩]) ∧
    (visitGlobalSymbols interruptedSymbols ⟨#[0, 0x62, 0]⟩ fun symbol =>
      modify (m := StateM (List GlobalSymbol)) (· ++ [symbol])).run [] =
        (.error (.symbolNameOffset 9 3), [⟨"b", 0x80, .weak⟩]) ∧
    (Machine.visitSymbols interruptedSymbols ⟨#[0, 0x62, 0]⟩ fun symbol =>
      modify (m := StateM (List GlobalSymbol)) (· ++ [symbol])).run [] =
        (.ok (.error (.symbolNameOffset 9 3)), [⟨"b", 0x80, .weak⟩]) := by
  have small : (ByteArray.mk #[0, 0x62, 0]).size < 2 ^ 63 := by decide
  have listed : globalSymbols interruptedSymbols ⟨#[0, 0x62, 0]⟩ =
      .ok [.ok ⟨"b", 0x80, .weak⟩, .error (.symbolNameOffset 9 3),
        .ok ⟨"b", 0xa0, .global⟩] := by
    decide +kernel
  obtain ⟨-, visited, iterated⟩ := visit_stops_at_fault interruptedSymbols ⟨#[0, 0x62, 0]⟩
  obtain ⟨handed, outcome, comes, -, visit, loop⟩ := visited _ listed
  simp only [comesTo_ok_cons, comesTo_error_cons] at comes
  obtain ⟨_, rfl, rfl, rfl⟩ := comes
  refine ⟨small, ((iterated small).2 _).mpr listed, ?_, ?_⟩
  · rw [visit]
    rfl
  · rw [loop small]
    rfl

end KernelExports
