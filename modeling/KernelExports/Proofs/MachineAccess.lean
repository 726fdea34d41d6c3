import KernelExports.Proofs.StringTables

/-!
# Accesses of a machine

The functions of this library calculate with natural numbers and look at a range only if it is
there. A machine has words of 64 bits, and an index, a range, a sum, a product or a difference that
it does not check stops it. `Run` is the type of a computation on such a machine, `Trap` says what
stops it, and each access has a lemma that says when it does not. Accesses that are checked on the
spot, such as `add?` or `range?`, give `none` instead.

An iterator on such a machine is a state and a step that gives an item or finds that there is none
left. `Drains` says what steps that follow each other give until the end.
-/

namespace KernelExports.Machine

/-- What stops a machine. -/
inductive Trap where
  /-- An index or a range is not inside. -/
  | outOfBounds
  /-- A sum, a product or a difference is not a word. -/
  | overflow
  deriving DecidableEq, Repr

/-- A computation that can be stopped. -/
abbrev Run (α : Type) : Type :=
  Except Trap α

/-- What comes after a step that is not stopped goes on with its result. -/
@[simp] theorem ok_bind {α β : Type} (result : α) (next : α → Run β) :
    ((.ok result : Run α) >>= next) = next result :=
  rfl

/-- What comes after a step sees the result of the step. -/
theorem bind_eq_ok_iff {α β : Type} {step : Run α} {next : α → Run β} {result : β} :
    step >>= next = .ok result ↔ ∃ middle, step = .ok middle ∧ next middle = .ok result := by
  cases step with
  | error trap => simp [bind, Except.bind]
  | ok middle => simp

/-- A result without a step is not stopped. -/
@[simp] theorem pure_eq_ok {α : Type} (result : α) : (pure result : Run α) = .ok result :=
  rfl

/-- The sum of two words, if the caller knows that it is a word. -/
def add (first second : UInt64) : Run UInt64 :=
  if first.toNat + second.toNat < addressCount then .ok (first + second) else .error .overflow

/-- The product of two words, if the caller knows that it is a word. -/
def mul (first second : UInt64) : Run UInt64 :=
  if first.toNat * second.toNat < addressCount then .ok (first * second) else .error .overflow

/-- The difference of two words, if the caller knows that it is a word. -/
def sub (first second : UInt64) : Run UInt64 :=
  if second ≤ first then .ok (first - second) else .error .overflow

/-- The sum of two words, if it is a word. -/
def add? (first second : UInt64) : Option UInt64 :=
  if first.toNat + second.toNat < addressCount then some (first + second) else none

/-- The product of two words, if it is a word. -/
def mul? (first second : UInt64) : Option UInt64 :=
  if first.toNat * second.toNat < addressCount then some (first * second) else none

/-- The number of bytes. -/
def length (data : ByteArray) : UInt64 :=
  UInt64.ofNat data.size

/-- The byte at an index. -/
def byteAt (data : ByteArray) (index : UInt64) : Run UInt8 :=
  if h : index.toNat < data.size then .ok data[index.toNat] else .error .outOfBounds

/-- The element of a list at an index. -/
def elementAt {α : Type} (elements : List α) (index : UInt64) : Run α :=
  match elements[index.toNat]? with
  | some element => .ok element
  | none => .error .outOfBounds

/-- The bytes from a start to a stop. -/
def range (data : ByteArray) (start stop : UInt64) : Run ByteArray :=
  if start ≤ stop ∧ stop.toNat ≤ data.size then .ok (data.extract start.toNat stop.toNat)
  else .error .outOfBounds

/-- The bytes from a start on. -/
def rangeFrom (data : ByteArray) (start : UInt64) : Run ByteArray :=
  if start.toNat ≤ data.size then .ok (data.extract start.toNat data.size)
  else .error .outOfBounds

/-- The bytes from a start to a stop, if they are there. -/
def range? (data : ByteArray) (start stop : UInt64) : Option ByteArray :=
  if start ≤ stop ∧ stop.toNat ≤ data.size then some (data.extract start.toNat stop.toNat)
  else none

/-- The record at an offset, if it is there. -/
def record? (α : Type) [Layout α] (data : ByteArray) (offset : UInt64) : Option α :=
  match add? offset (UInt64.ofNat (Layout.size α)) with
  | none => none
  | some stop => (range? data offset stop).map fun part => Layout.ofBytes part.data.toList

/-- The bytes before the first NUL byte, if there is one. -/
def untilNul (data : ByteArray) : Option (List UInt8) :=
  (data.data.toList.findIdx? (· == 0)).map fun count => data.data.toList.take count

/-- A sum that is a word is the sum of the numbers. -/
theorem toNat_add_of_lt {first second : UInt64}
    (fits : first.toNat + second.toNat < addressCount) :
    (first + second).toNat = first.toNat + second.toNat := by
  rw [UInt64.toNat_add]
  exact Nat.mod_eq_of_lt fits

/-- A product that is a word is the product of the numbers. -/
theorem toNat_mul_of_lt {first second : UInt64}
    (fits : first.toNat * second.toNat < addressCount) :
    (first * second).toNat = first.toNat * second.toNat := by
  rw [UInt64.toNat_mul]
  exact Nat.mod_eq_of_lt fits

/-- A checked sum is missing exactly if it is not a word. -/
theorem add?_eq_none_iff {first second : UInt64} :
    add? first second = none ↔ addressCount ≤ first.toNat + second.toNat := by
  rw [add?]
  split
  · next fits => simpa using fits
  · next overflow => simpa using overflow

/-- A checked sum is the sum of the numbers. -/
theorem add?_eq_some_iff {first second sum : UInt64} :
    add? first second = some sum ↔ sum.toNat = first.toNat + second.toNat := by
  have word := sum.toNat_lt
  rw [add?]
  split
  · next fits => rw [Option.some_inj, ← UInt64.toNat_inj, toNat_add_of_lt fits, eq_comm]
  · next overflow =>
    have no_sum : ¬ sum.toNat = first.toNat + second.toNat := by
      intro h
      rw [h] at word
      exact overflow word
    simp only [reduceCtorEq, no_sum]

/-- A checked product is missing exactly if it is not a word. -/
theorem mul?_eq_none_iff {first second : UInt64} :
    mul? first second = none ↔ addressCount ≤ first.toNat * second.toNat := by
  rw [mul?]
  split
  · next fits => simpa using fits
  · next overflow => simpa using overflow

/-- A checked product is the product of the numbers. -/
theorem mul?_eq_some_iff {first second product : UInt64} :
    mul? first second = some product ↔ product.toNat = first.toNat * second.toNat := by
  have word := product.toNat_lt
  rw [mul?]
  split
  · next fits => rw [Option.some_inj, ← UInt64.toNat_inj, toNat_mul_of_lt fits, eq_comm]
  · next overflow =>
    have no_product : ¬ product.toNat = first.toNat * second.toNat := by
      intro h
      rw [h] at word
      exact overflow word
    simp only [reduceCtorEq, no_product]

/-- An unchecked sum that is a word does not trap. -/
theorem add_eq_ok_iff {first second sum : UInt64} :
    add first second = .ok sum ↔ sum.toNat = first.toNat + second.toNat := by
  rw [← add?_eq_some_iff, add, add?]
  split <;> simp

/-- An unchecked product that is a word does not trap. -/
theorem mul_eq_ok_iff {first second product : UInt64} :
    mul first second = .ok product ↔ product.toNat = first.toNat * second.toNat := by
  rw [← mul?_eq_some_iff, mul, mul?]
  split <;> simp

/-- An unchecked difference that is not negative does not trap. -/
theorem exists_sub {first second : UInt64} (order : second.toNat ≤ first.toNat) :
    ∃ difference, sub first second = .ok difference ∧
      difference.toNat = first.toNat - second.toNat :=
  ⟨_, if_pos order, UInt64.toNat_sub_of_le _ _ order⟩

/-- A size that is a word is the length. -/
theorem toNat_length {data : ByteArray} (small : data.size < 2 ^ 63) :
    (length data).toNat = data.size :=
  UInt64.toNat_ofNat_of_lt' (Nat.lt_trans small (by decide))

/-- A word is behind the end exactly if its number is. -/
theorem length_lt_iff {data : ByteArray} (small : data.size < 2 ^ 63) (stop : UInt64) :
    length data < stop ↔ data.size < stop.toNat := by
  rw [UInt64.lt_iff_toNat_lt, toNat_length small]

/-- The byte at an index that is inside is read. -/
theorem byteAt_eq_ok {data : ByteArray} {index : UInt64} (inside : index.toNat < data.size) :
    byteAt data index = .ok data[index.toNat] :=
  dif_pos inside

/-- The element of a list at an index that is inside is read. -/
theorem elementAt_eq_ok {α : Type} {elements : List α} {index : UInt64} {element : α}
    (stands : elements[index.toNat]? = some element) : elementAt elements index = .ok element := by
  rw [elementAt, stands]

/-- A range that is inside is cut out. -/
theorem range_eq_ok {data : ByteArray} {start stop : UInt64} (order : start.toNat ≤ stop.toNat)
    (inside : stop.toNat ≤ data.size) :
    range data start stop = .ok (data.extract start.toNat stop.toNat) :=
  if_pos ⟨order, inside⟩

/-- The rest from a start that is inside is cut out. -/
theorem rangeFrom_eq_ok {data : ByteArray} {start : UInt64} (inside : start.toNat ≤ data.size) :
    rangeFrom data start = .ok (data.extract start.toNat data.size) :=
  if_pos inside

/-- The outcomes of a check of a range, with the slice that is or is not there. -/
inductive CheckedRange (data : ByteArray) (offset size : UInt64) : Prop where
  /-- The stop is not a word. -/
  | overflow (sum : add? offset size = none)
    (large : addressCount ≤ offset.toNat + size.toNat)
    (missing : slice? data offset.toNat size.toNat = none)
  /-- The stop is behind the end. -/
  | outside (stop : UInt64) (sum : add? offset size = some stop)
    (word : offset.toNat + size.toNat < addressCount) (behind : length data < stop)
    (missing : slice? data offset.toNat size.toNat = none)
  /-- The range is there, and no unchecked access to it traps. -/
  | inside (stop : UInt64) (part : ByteArray) (sum : add? offset size = some stop)
    (word : offset.toNat + size.toNat < addressCount) (before : ¬ length data < stop)
    (again : add offset size = .ok stop)
    (found : slice? data offset.toNat size.toNat = some part)
    (content : range data offset stop = .ok part)

/-- Checking the stop of a range finds out whether the range is there. -/
theorem checkedRange {data : ByteArray} (small : data.size < 2 ^ 63) (offset size : UInt64) :
    CheckedRange data offset size := by
  cases sum : add? offset size with
  | none =>
    have large := add?_eq_none_iff.mp sum
    have outside : data.size < offset.toNat + size.toNat := by
      rw [addressCount] at large
      omega
    exact .overflow sum large (slice?_eq_none_iff.mpr outside)
  | some stop =>
    have total := add?_eq_some_iff.mp sum
    have word : offset.toNat + size.toNat < addressCount := total ▸ stop.toNat_lt
    by_cases inside : stop.toNat ≤ data.size
    · have before : ¬ length data < stop := by
        rw [length_lt_iff small]
        omega
      have order : offset.toNat ≤ stop.toNat := by omega
      have found : slice? data offset.toNat size.toNat =
          some (data.extract offset.toNat stop.toNat) := by
        rw [slice?, ← total, if_pos inside]
      exact .inside stop _ sum word before (add_eq_ok_iff.mpr total) found
        (range_eq_ok order inside)
    · have behind : length data < stop := by
        rw [length_lt_iff small]
        omega
      have missing : data.size < offset.toNat + size.toNat := by omega
      exact .outside stop sum word behind (slice?_eq_none_iff.mpr missing)

/-- Reading a record on a machine is reading it at the same number, however large that is. -/
theorem record?_eq {α : Type} [Layout α] (fits : Layout.size α < 2 ^ 64) {data : ByteArray}
    (small : data.size < 2 ^ 63) (offset : UInt64) :
    record? α data offset = decode? α data offset.toNat := by
  obtain ⟨width, word, size⟩ : ∃ width : UInt64, UInt64.ofNat (Layout.size α) = width ∧
      width.toNat = Layout.size α :=
    ⟨_, rfl, UInt64.toNat_ofNat_of_lt' fits⟩
  rw [record?, decode?, word, ← size]
  cases checkedRange small offset width with
  | overflow sum _ missing =>
    rw [sum, missing]
    rfl
  | outside stop sum _ behind missing =>
    have long := (length_lt_iff small stop).mp behind
    have not_both : ¬ (offset ≤ stop ∧ stop.toNat ≤ data.size) := by omega
    rw [sum, missing]
    dsimp only
    rw [range?, if_neg not_both]
  | inside stop part sum _ _ _ found content =>
    rw [sum, found]
    rw [range] at content
    split at content
    · next both =>
      cases content
      dsimp only
      rw [range?, if_pos both]
    · cases content

/-- The bytes of the rest from a start. -/
theorem toList_data_extract_size (data : ByteArray) (start : Nat) :
    (data.extract start data.size).data.toList = data.data.toList.drop start := by
  have all : (data.data.toList.drop start).length ≤ data.size - start := by
    rw [List.length_drop, length_toList_data]
  rw [ByteArray.data_extract, Array.toList_extract, List.extract_eq_take_drop,
    List.take_of_length_le all]

/-- The entry of a string table is what stands before the first NUL byte of its rest. -/
theorem entry_eq_untilNul {table : ByteArray} {offset : Nat} (inside : offset < table.size) :
    StringTable.entry table offset =
      match untilNul (table.extract offset table.size) with
      | some name => .ok name
      | none => .error .unterminated := by
  rw [StringTable.entry, untilNul, if_pos inside, findIdx?_toList_drop,
    toList_data_extract_size]
  cases (table.data.toList.drop offset).findIdx? (· == 0) with
  | none => rfl
  | some count =>
    simp only [Option.map_some]
    rw [toList_data_extract_append]

section Iterators

variable {σ α : Type} {next : σ → Run (Option α × σ)} {state : σ}

/-- What is given by steps that follow each other, until there is nothing left to give. -/
inductive Drains (next : σ → Run (Option α × σ)) : σ → List α → Prop
  /-- Nothing is left. -/
  | done {state behind : σ} (step : next state = .ok (none, behind)) : Drains next state []
  /-- A step gives an item, and the steps behind it give the others. -/
  | item {state behind : σ} {item : α} {others : List α}
    (step : next state = .ok (some item, behind)) (later : Drains next behind others) :
    Drains next state (item :: others)

/-- There is only one way to come to the end. -/
theorem Drains.unique {first second : List α} (h : Drains next state first)
    (h' : Drains next state second) : first = second := by
  induction h generalizing second with
  | done step =>
    cases h' with
    | done _ => rfl
    | item step' _ =>
      rw [step] at step'
      cases step'
  | item step _ ih =>
    cases h' with
    | done step' =>
      rw [step] at step'
      cases step'
    | item step' later' =>
      rw [step] at step'
      cases step'
      rw [ih later']

/-- Steps that take the first of the items that a state has to give come to the end and give all of
them. -/
theorem drains_iff_of_step {Valid : σ → Prop} {items : σ → List α}
    (step : ∀ state, Valid state → ∃ behind, next state = .ok ((items state).head?, behind) ∧
      items behind = (items state).tail ∧ Valid behind)
    (valid : Valid state) {given : List α} : Drains next state given ↔ given = items state := by
  have whole : Drains next state (items state) := by
    generalize held : items state = held_items
    induction held_items generalizing state with
    | nil =>
      obtain ⟨behind, taken, -, -⟩ := step state valid
      rw [held] at taken
      exact .done taken
    | cons item others ih =>
      obtain ⟨behind, taken, left, valid⟩ := step state valid
      rw [held] at taken left
      exact .item taken (ih valid left)
  exact ⟨fun other => other.unique whole, fun same => same ▸ whole⟩

end Iterators

end KernelExports.Machine
