import KernelExports.Proofs.MachineAccess
import KernelExports.Proofs.ExportListing

/-!
# Registries on a machine

Who has a registry makes requests to it: changes, confirmations against a file, and the number of
unconfirmed records that a report shows. On a machine the count of marks is a word; a mark adds to
it, a removal and a confirmation subtract from it, and it is subtracted from the number of records.
As long as the number of records is a word, none of this traps, whatever the requests are and
however many of them fail: the count of marks is right after each of them.
-/

namespace KernelExports

/-- A request to a registry. -/
inductive Request where
  /-- A change. -/
  | change (change : Change)
  /-- A confirmation of the records by the symbols of a file. -/
  | confirm (file : ElfFile)
  /-- The number of records that are not confirmed. -/
  | unconfirmed

/-- The response to a request. -/
inductive Response where
  /-- The reply to a change. -/
  | changed (reply : Reply)
  /-- The number of newly marked records, or the reason why not all symbols were looked at. -/
  | confirmed (newly : Except Error Nat)
  /-- The number of records that are not confirmed. -/
  | unconfirmed (number : Nat)
  deriving DecidableEq

namespace Registry

/-- The ways in which a caller comes to a registry before it makes requests. -/
inductive Begins : Registry → Prop where
  /-- The caller starts without records. -/
  | empty : Begins .empty
  /-- The caller starts with a list of exported names. -/
  | parsed {data : ByteArray} {registry : Registry} (read : ExportNames.parse data = .ok registry) :
    Begins registry

/-- The response to a request, and the registry that is left. -/
def serve (registry : Registry) : Request → Response × Registry
  | .change change => (.changed (registry.perform change).1, (registry.perform change).2)
  | .confirm file => (.confirmed (confirm file registry).1, (confirm file registry).2)
  | .unconfirmed => (.unconfirmed (registry.size - registry.markCount), registry)

/-- The registry after requests that follow each other. -/
def served (registry : Registry) (requests : List Request) : Registry :=
  requests.foldl (fun current request => (current.serve request).2) registry

/-- The responses to requests that follow each other. -/
def responses (registry : Registry) : List Request → List Response
  | [] => []
  | request :: rest => (registry.serve request).1 :: (registry.serve request).2.responses rest

/-- A registry to begin with is well formed. -/
theorem Begins.wellFormed {registry : Registry} (begins : registry.Begins) :
    registry.WellFormed := by
  cases begins with
  | empty => exact wellFormed_empty
  | parsed read => exact ExportNames.wellFormed_of_parse read

/-- Nothing is marked at the beginning. -/
theorem Begins.markCount {registry : Registry} (begins : registry.Begins) :
    registry.markCount = 0 := by
  cases begins with
  | empty => rfl
  | parsed read =>
    obtain ⟨-, names, -, lists⟩ := ExportNames.parse_eq_ok_iff.mp read
    exact lists.unmarked

/-- A confirmation marks symbols, even if it fails midway, or changes nothing. -/
theorem confirm_snd (file : ElfFile) (registry : Registry) :
    ∃ symbols, (confirm file registry).2 = markAll registry symbols := by
  rw [confirm]
  cases file.globalSymbols with
  | error error => exact ⟨[], rfl⟩
  | ok items =>
    refine ⟨beforeError items, ?_⟩
    dsimp only
    split <;> rfl

/-- Every request leaves a well-formed registry behind. -/
theorem wellFormed_serve {registry : Registry} (wellFormed : registry.WellFormed)
    (request : Request) : (registry.serve request).2.WellFormed := by
  cases request with
  | change change => exact wellFormed_perform wellFormed change
  | confirm file =>
    obtain ⟨symbols, marked⟩ := confirm_snd file registry
    rw [serve, marked]
    exact wellFormed_markAll wellFormed symbols
  | unconfirmed => exact wellFormed

/-- Every sequence of requests leaves a well-formed registry behind. -/
theorem wellFormed_served {registry : Registry} (wellFormed : registry.WellFormed)
    (requests : List Request) : (registry.served requests).WellFormed := by
  induction requests generalizing registry with
  | nil => exact wellFormed
  | cons request rest ih => exact ih (wellFormed_serve wellFormed request)

/-- A registry that a caller can come to. -/
def Reachable (registry : Registry) : Prop :=
  ∃ start requests, Begins start ∧ start.served requests = registry

/-- A registry that can be reached is well formed. -/
theorem Reachable.wellFormed {registry : Registry} (reachable : registry.Reachable) :
    registry.WellFormed := by
  obtain ⟨start, requests, begins, rfl⟩ := reachable
  exact wellFormed_served begins.wellFormed requests

/-! ### The room for marks -/

/-- There are no more marked records than records. -/
theorem markCount_le_size {registry : Registry} (wellFormed : registry.WellFormed) :
    registry.markCount ≤ registry.size :=
  wellFormed.consistent.bounded

/-- Insertions do not change the number of marked records. -/
theorem markCount_insertCopy (registry : Registry) (record : Record) :
    (registry.perform (.insertCopy record)).2.markCount = registry.markCount := by
  rw [perform]
  cases added : registry.insertCopy record with
  | ok extended => exact (insertCopy_eq_ok_iff.mp added).2.2.2
  | error error => rfl

/-- Links do not change the number of marked records. -/
theorem markCount_setLink (registry : Registry) (name : String) (link : Option String) :
    (registry.perform (.setLink name link)).2.markCount = registry.markCount := by
  rw [perform, setLink?]
  cases registry.get? name <;> rfl

/-- Marks do not change the number of records. -/
theorem size_mark (registry : Registry) (name : String) :
    (registry.mark name).size = registry.size := by
  rw [mark, mark?]
  cases found : registry.get? name with
  | none => rfl
  | some record =>
    have present : registry.records.contains name = true := by
      rw [Std.ExtTreeMap.contains_eq_isSome_getElem?]
      rw [get?] at found
      rw [found]
      rfl
    by_cases marked : record.marked
    · simp [marked]
    · simp [marked, size, Std.ExtTreeMap.size_insert, present]

/-- A mark does not make the marked records fewer. -/
theorem markCount_le_mark (registry : Registry) (name : String) :
    registry.markCount ≤ (registry.mark name).markCount := by
  rw [mark, mark?]
  cases registry.get? name with
  | none => exact Nat.le_refl _
  | some record =>
    by_cases marked : record.marked
    · simp [marked]
    · simp [marked]

/-- The marks of several symbols do not make the marked records fewer. -/
theorem markCount_le_markAll (registry : Registry) (symbols : List GlobalSymbol) :
    registry.markCount ≤ (markAll registry symbols).markCount := by
  rw [markAll]
  induction symbols generalizing registry with
  | nil => exact Nat.le_refl _
  | cons symbol rest ih =>
    exact Nat.le_trans (markCount_le_mark registry symbol.name) (ih (registry.mark symbol.name))

/-- An unmarked record leaves room for its mark. -/
theorem markCount_lt_size {registry : Registry} (wellFormed : registry.WellFormed)
    {name : String} {record : Record} (found : registry.get? name = some record)
    (unmarked : record.marked = false) : registry.markCount < registry.size := by
  have listed : record ∈ registry.toList := by
    rw [wellFormed.mem_toList_iff, wellFormed.own_name name record found]
    exact found
  rw [wellFormed.counted, countMarked, ← length_toList]
  exact List.countP_lt_length_iff.mpr ⟨record, listed, unmarked⟩

end Registry

namespace Machine

/-- A registry with a count of marks that is a word. -/
structure Registry where
  /-- The records, each under its own name. -/
  records : Std.ExtTreeMap String Record
  /-- The number of marked records. -/
  markCount : UInt64

namespace Registry

/-- The registry of this library that a registry on a machine stands for. -/
def toSpec (registry : Registry) : KernelExports.Registry :=
  ⟨registry.records, registry.markCount.toNat⟩

/-- Marks the record of a name. -/
def mark? (registry : Registry) (name : String) : Run (Option Registry) :=
  match registry.records[name]? with
  | none => return none
  | some record =>
    if record.marked then return some registry
    else do
      let count ← add registry.markCount 1
      return some ⟨registry.records.insert name { record with marked := true }, count⟩

/-- The number of marked records without the given one. -/
def countWithout (registry : Registry) (record : Record) : Run UInt64 :=
  if record.marked then sub registry.markCount 1 else return registry.markCount

/-- Takes the record of a name out of the registry. -/
def remove? (registry : Registry) (name : String) : Run (Option (Record × Registry)) :=
  match registry.records[name]? with
  | none => return none
  | some record => do
    let count ← registry.countWithout record
    return some (record, ⟨registry.records.erase name, count⟩)

/-- The reply to a change, and the registry that is left. Insertions and links do not count
anything. -/
def perform (registry : Registry) : Change → Run (Reply × Registry)
  | .mark name => do
    match ← registry.mark? name with
    | some marked => return (.found true, marked)
    | none => return (.found false, registry)
  | .remove name => do
    match ← registry.remove? name with
    | some (record, rest) => return (.removed (some record), rest)
    | none => return (.removed none, registry)
  | change =>
    let (reply, left) := registry.toSpec.perform change
    return (reply, ⟨left.records, registry.markCount⟩)

/-- Marks the records of the given symbols. -/
def markAll (registry : Registry) : List GlobalSymbol → Run Registry
  | [] => return registry
  | symbol :: rest => do
    let marked ← registry.mark? symbol.name
    (marked.getD registry).markAll rest

/-- Marks every record that a global or weak symbol of the file confirms, and counts the records
that were not marked before. -/
def confirm (file : ElfFile) (registry : Registry) : Run (Except Error Nat × Registry) :=
  match file.globalSymbols with
  | .error error => return (.error error, registry)
  | .ok items => do
    let marked ← registry.markAll (beforeError items)
    match firstError? items with
    | some fault => return (.error (.malformed fault), marked)
    | none => do
      let newly ← sub marked.markCount registry.markCount
      return (.ok newly.toNat, marked)

/-- The number of records that are not marked. -/
def unconfirmed (registry : Registry) : Run Nat := do
  let number ← sub (UInt64.ofNat registry.records.size) registry.markCount
  return number.toNat

/-- The response to a request, and the registry that is left. -/
def serve (registry : Registry) : Request → Run (Response × Registry)
  | .change change => do
    let (reply, left) ← registry.perform change
    return (.changed reply, left)
  | .confirm file => do
    let (newly, left) ← confirm file registry
    return (.confirmed newly, left)
  | .unconfirmed => do
    let number ← registry.unconfirmed
    return (.unconfirmed number, registry)

/-- The responses to requests that follow each other, and the registry that is left. -/
def serveAll (registry : Registry) : List Request → Run (List Response × Registry)
  | [] => return ([], registry)
  | request :: rest => do
    let (response, left) ← registry.serve request
    let (others, last) ← left.serveAll rest
    return (response :: others, last)

/-! ### No request traps -/

/-- A mark finds room in the count. -/
theorem mark?_eq {registry : Registry} (wellFormed : registry.toSpec.WellFormed)
    (few : registry.toSpec.size < addressCount) (name : String) :
    ∃ marked, registry.mark? name = .ok marked ∧
      marked.map toSpec = registry.toSpec.mark? name := by
  rw [mark?, KernelExports.Registry.mark?]
  cases found : registry.records[name]? with
  | none =>
    have absent : registry.toSpec.get? name = none := found
    rw [absent]
    exact ⟨none, rfl, rfl⟩
  | some record =>
    have present : registry.toSpec.get? name = some record := found
    rw [present]
    by_cases marked : record.marked
    · simp only [marked, if_true]
      exact ⟨some registry, rfl, rfl⟩
    · have room : registry.toSpec.markCount < registry.toSpec.size :=
        KernelExports.Registry.markCount_lt_size wellFormed present (by simpa using marked)
      have fits : registry.markCount.toNat + (1 : UInt64).toNat < addressCount :=
        Nat.lt_of_le_of_lt room few
      have sum : add registry.markCount 1 = .ok (registry.markCount + 1) :=
        add_eq_ok_iff.mpr (toNat_add_of_lt fits)
      simp only [marked, sum]
      refine ⟨_, rfl, ?_⟩
      rw [Option.map_some, toSpec, toNat_add_of_lt fits]
      rfl

/-- The mark of a record is part of the count. -/
theorem countWithout_eq {registry : Registry} (counted : registry.toSpec.Counted) {name : String}
    {record : Record} (present : registry.toSpec.get? name = some record) :
    ∃ count, registry.countWithout record = .ok count ∧
      count.toNat = if record.marked then registry.toSpec.markCount - 1
        else registry.toSpec.markCount := by
  rw [countWithout]
  by_cases marked : record.marked
  · have enough := KernelExports.Registry.marks_le_markCount counted name
    rw [present, KernelExports.Registry.marks, Option.any_some, if_pos marked] at enough
    rw [if_pos marked, if_pos marked]
    exact exists_sub enough
  · rw [if_neg marked, if_neg marked]
    exact ⟨_, rfl, rfl⟩

/-- A removal does not trap. -/
theorem remove?_eq {registry : Registry} (counted : registry.toSpec.Counted) (name : String) :
    ∃ removed, registry.remove? name = .ok removed ∧
      (removed.map fun (record, rest) => (record, rest.toSpec)) =
        registry.toSpec.remove? name := by
  rw [remove?, KernelExports.Registry.remove?]
  cases found : registry.records[name]? with
  | none =>
    have absent : registry.toSpec.get? name = none := found
    rw [absent]
    exact ⟨none, rfl, rfl⟩
  | some record =>
    have present : registry.toSpec.get? name = some record := found
    obtain ⟨count, difference, value⟩ := countWithout_eq counted present
    rw [present]
    dsimp only
    rw [difference, ← value]
    exact ⟨_, rfl, rfl⟩

/-- A registry that is left with the same count is left so on a machine. -/
theorem toSpec_of_markCount {registry : Registry} {left : KernelExports.Registry}
    (count : left.markCount = registry.toSpec.markCount) :
    toSpec ⟨left.records, registry.markCount⟩ = left := by
  change (⟨left.records, registry.toSpec.markCount⟩ : KernelExports.Registry) = left
  rw [← count]

/-- A change does not trap. The reply is the same, and so is the registry that is left. -/
theorem perform_eq {registry : Registry} (wellFormed : registry.toSpec.WellFormed)
    (few : registry.toSpec.size < addressCount) (change : Change) :
    ∃ left : Registry, registry.perform change = .ok ((registry.toSpec.perform change).1, left) ∧
      left.toSpec = (registry.toSpec.perform change).2 := by
  cases change with
  | mark name =>
    obtain ⟨marked, done, same⟩ := mark?_eq wellFormed few name
    rw [perform, KernelExports.Registry.perform, done, ← same]
    cases marked with
    | none => exact ⟨registry, rfl, rfl⟩
    | some marked => exact ⟨marked, rfl, rfl⟩
  | remove name =>
    obtain ⟨removed, done, same⟩ := remove?_eq wellFormed.counted name
    rw [perform, KernelExports.Registry.perform, done, ← same]
    cases removed with
    | none => exact ⟨registry, rfl, rfl⟩
    | some removed => exact ⟨removed.2, rfl, rfl⟩
  | insert name value =>
    exact ⟨_, rfl, toSpec_of_markCount (KernelExports.Registry.markCount_insertCopy _ _)⟩
  | insertCopy record =>
    exact ⟨_, rfl, toSpec_of_markCount (KernelExports.Registry.markCount_insertCopy _ _)⟩
  | setLink name link =>
    exact ⟨_, rfl, toSpec_of_markCount (KernelExports.Registry.markCount_setLink _ _ _)⟩

/-- Marking symbols does not trap. -/
theorem markAll_eq {registry : Registry} (wellFormed : registry.toSpec.WellFormed)
    (few : registry.toSpec.size < addressCount) (symbols : List GlobalSymbol) :
    ∃ marked : Registry, registry.markAll symbols = .ok marked ∧
      marked.toSpec = KernelExports.markAll registry.toSpec symbols := by
  induction symbols generalizing registry with
  | nil => exact ⟨registry, rfl, rfl⟩
  | cons symbol rest ih =>
    obtain ⟨marked, done, same⟩ := mark?_eq wellFormed few symbol.name
    have next : (marked.getD registry).toSpec = registry.toSpec.mark symbol.name := by
      rw [KernelExports.Registry.mark, ← same]
      cases marked <;> rfl
    have still : (marked.getD registry).toSpec.WellFormed := by
      rw [next, KernelExports.Registry.mark_eq_perform]
      exact KernelExports.Registry.wellFormed_perform wellFormed _
    have fits : (marked.getD registry).toSpec.size < addressCount := by
      rw [next, KernelExports.Registry.size_mark]
      exact few
    obtain ⟨all, others, last⟩ := ih still fits
    rw [markAll, done]
    exact ⟨all, others, by rw [last, next]; rfl⟩

/-- A confirmation does not trap: the count of marks only grows. -/
theorem confirm_eq {registry : Registry} (wellFormed : registry.toSpec.WellFormed)
    (few : registry.toSpec.size < addressCount) (file : ElfFile) :
    ∃ left : Registry,
      confirm file registry = .ok ((KernelExports.confirm file registry.toSpec).1, left) ∧
        left.toSpec = (KernelExports.confirm file registry.toSpec).2 := by
  rw [confirm, KernelExports.confirm]
  cases file.globalSymbols with
  | error error => exact ⟨registry, rfl, rfl⟩
  | ok items =>
    obtain ⟨marked, done, same⟩ := markAll_eq wellFormed few (beforeError items)
    dsimp only
    rw [done, ok_bind, ← same]
    cases firstError? items with
    | some fault => exact ⟨marked, rfl, rfl⟩
    | none =>
      have grown := KernelExports.Registry.markCount_le_markAll registry.toSpec (beforeError items)
      rw [← same] at grown
      obtain ⟨newly, difference, value⟩ := exists_sub grown
      dsimp only
      rw [difference, ok_bind, value]
      exact ⟨marked, rfl, rfl⟩

/-- The number of unconfirmed records is a difference of words. -/
theorem unconfirmed_eq {registry : Registry} (wellFormed : registry.toSpec.WellFormed)
    (few : registry.toSpec.size < addressCount) :
    registry.unconfirmed = .ok (registry.toSpec.size - registry.toSpec.markCount) := by
  have word : (UInt64.ofNat registry.records.size).toNat = registry.toSpec.size :=
    UInt64.toNat_ofNat_of_lt' few
  have bound := KernelExports.Registry.markCount_le_size wellFormed
  rw [← word] at bound
  obtain ⟨number, difference, value⟩ := exists_sub bound
  rw [unconfirmed, difference, ok_bind, value, word]
  rfl

/-- A request does not trap. The response is the same, and so is the registry that is left. -/
theorem serve_eq {registry : Registry} (wellFormed : registry.toSpec.WellFormed)
    (few : registry.toSpec.size < addressCount) (request : Request) :
    ∃ left : Registry, registry.serve request = .ok ((registry.toSpec.serve request).1, left) ∧
      left.toSpec = (registry.toSpec.serve request).2 := by
  cases request with
  | change change =>
    obtain ⟨left, done, same⟩ := perform_eq wellFormed few change
    rw [serve, done]
    exact ⟨left, rfl, same⟩
  | confirm file =>
    obtain ⟨left, done, same⟩ := confirm_eq wellFormed few file
    rw [serve, done]
    exact ⟨left, rfl, same⟩
  | unconfirmed =>
    rw [serve, unconfirmed_eq wellFormed few]
    exact ⟨registry, rfl, rfl⟩

/-- No sequence of requests traps. -/
theorem serveAll_eq {registry : Registry} (wellFormed : registry.toSpec.WellFormed)
    (requests : List Request)
    (few : ∀ done, done <+: requests → (registry.toSpec.served done).size < addressCount) :
    ∃ left : Registry,
      registry.serveAll requests = .ok (registry.toSpec.responses requests, left) ∧
        left.toSpec = registry.toSpec.served requests := by
  induction requests generalizing registry with
  | nil => exact ⟨registry, rfl, rfl⟩
  | cons request rest ih =>
    obtain ⟨next, served, same⟩ := serve_eq wellFormed (few [] (List.nil_prefix)) request
    have still : next.toSpec.WellFormed := by
      rw [same]
      exact KernelExports.Registry.wellFormed_serve wellFormed request
    have few_later : ∀ done, done <+: rest → (next.toSpec.served done).size < addressCount := by
      intro done before
      rw [same]
      exact few (request :: done) ((List.prefix_cons_inj request).mpr before)
    obtain ⟨last, others, final⟩ := ih still few_later
    rw [serveAll, served, ok_bind]
    dsimp only
    rw [others, same]
    exact ⟨last, rfl, by rw [final, same]; rfl⟩

end Registry

/-- Whatever is requested of a registry that began empty or with a list of exported names, and
however many of the requests fail: the count of marks is the number of marked records, every record
stands under its own name, no name is empty, and no name occurs twice. As long as the number of
records is a word, nothing traps on a machine that keeps the count in a word and starts it at zero;
its responses are those of this library, and so is the registry that is left. -/
theorem requests_keep_consistent {start : KernelExports.Registry} (begins : start.Begins)
    (requests : List Request) :
    (start.served requests).Consistent ∧
    ((∀ done, done <+: requests → (start.served done).size < addressCount) →
      ∃ left : Registry,
        Registry.serveAll ⟨start.records, 0⟩ requests = .ok (start.responses requests, left) ∧
          left.toSpec = start.served requests) := by
  have same : Registry.toSpec ⟨start.records, 0⟩ = start := by
    change (⟨start.records, 0⟩ : KernelExports.Registry) = start
    rw [← begins.markCount]
  have kept := KernelExports.Registry.wellFormed_served begins.wellFormed requests
  refine ⟨kept.consistent, fun few => ?_⟩
  rw [← same] at few ⊢
  exact Registry.serveAll_eq (same ▸ begins.wellFormed) requests few

/-- A file with a global symbol and, behind it, one without a readable name. -/
def partlyNamed : ElfFile where
  path := "partly.ko"
  bytes := encode (⟨0, 0, 0, 0, 0, 0⟩ : SymbolRecord) ++
    encode (⟨1, 0x10, 0, 1, 0x40, 8⟩ : SymbolRecord) ++
    encode (⟨9, 0x20, 0, 1, 0x80, 8⟩ : SymbolRecord)
  header := FileHeader.ofBytes []
  sections := ⟨[SectionHeader.ofBytes [], ⟨0, 2, 0, 0, 0, 72, 0, 0, 0, 24⟩],
    (Utf8.encode symbolSection ++ [0]).toByteArray⟩
  symbolNames := some ⟨#[0, 0x62, 0]⟩

/-- Requests that mark a record twice, fail midway to confirm records, and put back a record that
was taken out while it was marked. -/
def mixedRequests : List Request :=
  [.change (.insert "a" 0), .change (.insert "b" 1), .change (.mark "a"), .change (.mark "a"),
    .confirm partlyNamed, .change (.remove "a"), .change (.insertCopy ⟨"a", 0, true, none⟩),
    .unconfirmed]

/-- The responses to these requests, if there was no record before. -/
def mixedResponses : List Response :=
  [.changed (.inserted (some ⟨"a", 0, false, none⟩)),
    .changed (.inserted (some ⟨"b", 1, false, none⟩)), .changed (.found true),
    .changed (.found true), .confirmed (.error (.malformed (.symbolNameOffset 9 3))),
    .changed (.removed (some ⟨"a", 0, true, none⟩)),
    .changed (.inserted (some ⟨"a", 0, false, none⟩)), .unconfirmed 1]

/-- The mark that was set before the failure stays, and it is the only one in the end. -/
theorem mixedRequests_consistent :
    KernelExports.Registry.empty.Begins ∧
    (∀ done, done <+: mixedRequests →
      (KernelExports.Registry.empty.served done).size < addressCount) ∧
    (KernelExports.Registry.empty.served mixedRequests).Consistent ∧
    ∃ left : Registry,
      Registry.serveAll ⟨∅, 0⟩ mixedRequests = .ok (mixedResponses, left) ∧
        left.markCount = 1 := by
  have few : ∀ done ∈ mixedRequests.inits,
      (KernelExports.Registry.empty.served done).size < addressCount := by
    decide +kernel
  have few' : ∀ done, done <+: mixedRequests →
      (KernelExports.Registry.empty.served done).size < addressCount := fun done before =>
    few done ((List.mem_inits _ _).mpr before)
  have responses : KernelExports.Registry.empty.responses mixedRequests = mixedResponses := by
    decide +kernel
  have count : (KernelExports.Registry.empty.served mixedRequests).markCount = 1 := by
    decide +kernel
  obtain ⟨consistent, machine⟩ := requests_keep_consistent .empty mixedRequests
  obtain ⟨left, served, same⟩ := machine few'
  rw [responses] at served
  rw [← same] at count
  exact ⟨.empty, few', consistent, left, served, UInt64.toNat_inj.mp count⟩

end Machine

end KernelExports
