import KernelExports.Proofs.MachineAccess
import KernelExports.Proofs.Segments

/-!
# Splitting the list of exports on a machine

The splitter keeps two words, the position behind the names that it has given and the number of
these names. Neither of them grows beyond the size of the list, and the NUL byte at the end of the
list is always ahead, so no step of it traps.
-/

namespace KernelExports.Machine

open ExportNames

/-- What a splitter remembers between its steps. -/
structure Splitter where
  /-- The list of exports. -/
  data : ByteArray
  /-- The position behind what it has looked at. -/
  position : UInt64
  /-- The number of names that it has given. -/
  index : UInt64

namespace Splitter

/-- The splitter of a list that ends in a NUL byte. -/
def start (data : ByteArray) : Except Malformation Splitter :=
  if data.data.back? = some 0 then .ok ⟨data, 0, 0⟩ else .error .exportsUnterminated

/-- What one look at the list comes to. -/
inductive Turn where
  /-- There is nothing ahead. -/
  | finished
  /-- There was a NUL byte, and nothing before it. -/
  | skipped (behind : Splitter)
  /-- There was a name. -/
  | found (item : Except Malformation ExportName) (behind : Splitter)

/-- Looks at the list up to the next NUL byte. -/
def turn (splitter : Splitter) : Run Turn :=
  if length splitter.data ≤ splitter.position then return .finished
  else do
    let rest ← rangeFrom splitter.data splitter.position
    match rest.data.toList.findIdx? (· == 0) with
    | none => return .finished
    | some count => do
      let stop ← add splitter.position (UInt64.ofNat count)
      let behind ← add stop 1
      if count = 0 then return .skipped { splitter with position := behind }
      else do
        let following ← add splitter.index 1
        let stop ← add splitter.position (UInt64.ofNat count)
        let name ← range splitter.data splitter.position stop
        let item : Except Malformation ExportName :=
          match Utf8.decode name.data.toList with
          | .ok text => .ok ⟨text, splitter.index.toNat⟩
          | .error defect =>
            .error (.exportNameEncoding splitter.position.toNat defect)
        return .found item ⟨splitter.data, behind, following⟩

/-- Skipping a NUL byte brings a splitter closer to the end of its list. -/
theorem lt_of_turn_skipped {splitter behind : Splitter}
    (step : splitter.turn = .ok (.skipped behind)) :
    behind.data.size - behind.position.toNat <
      splitter.data.size - splitter.position.toNat := by
  rw [turn] at step
  split at step
  · cases step
  · next ahead =>
    have size : (length splitter.data).toNat ≤ splitter.data.size := Nat.mod_le _ _
    have before : splitter.position.toNat < splitter.data.size := by
      rw [UInt64.le_iff_toNat_le] at ahead
      omega
    obtain ⟨rest, -, step⟩ := bind_eq_ok_iff.mp step
    split at step
    · cases step
    · next count _ =>
      obtain ⟨stop, at_stop, step⟩ := bind_eq_ok_iff.mp step
      obtain ⟨position, at_position, step⟩ := bind_eq_ok_iff.mp step
      rw [add_eq_ok_iff] at at_stop at_position
      have one : (1 : UInt64).toNat = 1 := rfl
      split at step
      · cases step
        dsimp only
        omega
      · obtain ⟨following, -, step⟩ := bind_eq_ok_iff.mp step
        obtain ⟨stop, -, step⟩ := bind_eq_ok_iff.mp step
        obtain ⟨name, -, step⟩ := bind_eq_ok_iff.mp step
        cases step

/-- The next item. -/
def next (splitter : Splitter) : Run (Option (Except Malformation ExportName) × Splitter) :=
  match _ : splitter.turn with
  | .error trap => .error trap
  | .ok .finished => return (none, splitter)
  | .ok (.found item behind) => return (some item, behind)
  | .ok (.skipped behind) => next behind
termination_by splitter.data.size - splitter.position.toNat
decreasing_by exact lt_of_turn_skipped ‹_›

/-- At the end of the list there is no next item. -/
theorem next_of_finished {splitter : Splitter} (step : splitter.turn = .ok .finished) :
    splitter.next = .ok (none, splitter) := by
  rw [next]
  split <;> simp_all

/-- Where a segment begins the next item is the one of the segment. -/
theorem next_of_found {splitter behind : Splitter} {item : Except Malformation ExportName}
    (step : splitter.turn = .ok (.found item behind)) :
    splitter.next = .ok (some item, behind) := by
  rw [next]
  split <;> simp_all

/-- Where a NUL byte stands the next item is the one behind it. -/
theorem next_of_skipped {splitter behind : Splitter}
    (step : splitter.turn = .ok (.skipped behind)) : splitter.next = behind.next := by
  rw [next]
  split <;> simp_all

/-- The items that a splitter has yet to give. -/
def items (splitter : Splitter) : List (Except Malformation ExportName) :=
  ((segmentsFrom splitter.position.toNat
    (splitter.data.data.toList.drop splitter.position.toNat)).zipIdx splitter.index.toNat).map
      fun (segment, index) => segment.read index

/-- A splitter that has not lost its way: it stands inside of its list, it has given at most one
name for each byte, and unless nothing is ahead, a NUL byte is. -/
structure Valid (splitter : Splitter) : Prop where
  /-- The list can be mapped. -/
  small : splitter.data.size < 2 ^ 63
  /-- The position is inside. -/
  inside : splitter.position.toNat ≤ splitter.data.size
  /-- There are fewer names than bytes. -/
  counted : splitter.index.toNat ≤ splitter.position.toNat
  /-- The list ends in a NUL byte. -/
  ends : splitter.data.data.back? = some 0

/-- What a look at the list comes to if nothing traps. -/
inductive Turned (splitter : Splitter) : Prop where
  /-- There is nothing ahead. -/
  | finished (step : splitter.turn = .ok .finished) (none : splitter.items = [])
  /-- Nothing is before the next NUL byte. -/
  | skipped (behind : Splitter) (step : splitter.turn = .ok (.skipped behind))
    (valid : behind.Valid) (same : behind.items = splitter.items)
  /-- A name is before the next NUL byte. -/
  | found (item : Except Malformation ExportName) (behind : Splitter)
    (step : splitter.turn = .ok (.found item behind)) (valid : behind.Valid)
    (split : splitter.items = item :: behind.items)

/-- A NUL byte is ahead of every position inside of a list that ends in one. -/
theorem exists_zero_ahead {data : ByteArray} (ends : data.data.back? = some 0) {position : Nat}
    (inside : position < data.size) :
    ∃ run rest, data.data.toList.drop position = run ++ 0 :: rest ∧ 0 ∉ run := by
  rcases nul_cases (data.data.toList.drop position) with free | ahead
  · rw [← Array.getLast?_toList] at ends
    have last : (data.data.toList.drop position).getLast? = some 0 := by
      rw [List.getLast?_drop, if_neg (by rw [length_toList_data]; omega), ends]
    exact absurd (List.mem_of_getLast? last) free
  · exact ahead

/-- A look at a run of bytes before a NUL byte moves behind that byte, and gives the run its number
unless it is empty. -/
theorem turn_of_ahead {data : ByteArray} (small : data.size < 2 ^ 63) {position index : UInt64}
    (counted : index.toNat ≤ position.toNat) {run rest : List UInt8}
    (ahead : data.data.toList.drop position.toNat = run ++ 0 :: rest) (free : 0 ∉ run) :
    ∃ behind following : UInt64, behind.toNat = position.toNat + run.length + 1 ∧
      following.toNat = index.toNat + 1 ∧
      turn ⟨data, position, index⟩ =
        if run.length = 0 then .ok (.skipped ⟨data, behind, index⟩)
        else .ok (.found ((⟨position.toNat, run⟩ : Segment).read index.toNat)
          ⟨data, behind, following⟩) := by
  have size := congrArg List.length ahead
  rw [List.length_drop, length_toList_data, List.length_append, List.length_cons] at size
  have start : ¬ length data ≤ position := by
    rw [UInt64.le_iff_toNat_le, toNat_length small]
    omega
  have small_word : ∀ number, number ≤ data.size → (UInt64.ofNat number).toNat = number :=
    fun number bound => UInt64.toNat_ofNat_of_lt' (by change number < 2 ^ 64; omega)
  have count := small_word run.length (by omega)
  have stop := small_word (position.toNat + run.length) (by omega)
  have behind := small_word (position.toNat + run.length + 1) (by omega)
  have following := small_word (index.toNat + 1) (by omega)
  have to_stop : add position (UInt64.ofNat run.length) =
      .ok (UInt64.ofNat (position.toNat + run.length)) := add_eq_ok_iff.mpr (by rw [stop, count])
  have to_behind : add (UInt64.ofNat (position.toNat + run.length)) 1 =
      .ok (UInt64.ofNat (position.toNat + run.length + 1)) := by
    rw [add_eq_ok_iff, behind, stop]
    rfl
  have to_following : add index 1 = .ok (UInt64.ofNat (index.toNat + 1)) :=
    add_eq_ok_iff.mpr following
  have name : range data position (UInt64.ofNat (position.toNat + run.length)) =
      .ok (data.extract position.toNat (position.toNat + run.length)) := by
    rw [range_eq_ok (by omega) (by omega), stop]
  exists UInt64.ofNat (position.toNat + run.length + 1), UInt64.ofNat (index.toNat + 1), behind,
    following
  rw [turn]
  dsimp only
  rw [if_neg start, rangeFrom_eq_ok (by omega), ok_bind, toList_data_extract_size, ahead,
    findIdx?_zero free]
  dsimp only
  rw [to_stop, ok_bind, to_behind, ok_bind]
  split
  · rfl
  · rw [to_following, ok_bind, ok_bind, name, ok_bind, toList_data_extract_append, ahead,
      List.take_left]
    rfl

/-- No look at the list traps. -/
theorem turned {splitter : Splitter} (valid : splitter.Valid) : Turned splitter := by
  obtain ⟨data, position, index⟩ := splitter
  obtain ⟨small, inside, counted, ends⟩ := valid
  dsimp only at small inside counted ends
  by_cases done : data.size ≤ position.toNat
  · have empty : data.data.toList.drop position.toNat = [] :=
      List.drop_of_length_le (by rwa [length_toList_data])
    have behind : length data ≤ position := by
      rwa [UInt64.le_iff_toNat_le, toNat_length small]
    have step : turn ⟨data, position, index⟩ = .ok .finished := by
      rw [turn, if_pos behind]
      rfl
    have none : items ⟨data, position, index⟩ = [] := by
      rw [items, empty, segmentsFrom_of_free List.not_mem_nil]
      rfl
    exact .finished step none
  · obtain ⟨run, rest, ahead, free⟩ := exists_zero_ahead ends (Nat.not_le.mp done)
    obtain ⟨behind, following, at_behind, at_following, step⟩ :=
      turn_of_ahead small counted ahead free
    have size := congrArg List.length ahead
    rw [List.length_drop, length_toList_data, List.length_append, List.length_cons] at size
    have left : data.data.toList.drop behind.toNat = rest := by
      rw [at_behind, ← List.drop_drop, ← List.drop_drop, ahead, List.drop_left]
      rfl
    have segments : segmentsFrom position.toNat (data.data.toList.drop position.toNat) =
        segmentOf position.toNat run ++
          segmentsFrom behind.toNat (data.data.toList.drop behind.toNat) := by
      rw [left, ahead, segmentsFrom_append free, at_behind]
    cases run with
    | nil =>
      have valid : Valid ⟨data, behind, index⟩ :=
        ⟨small, by dsimp only; omega, by dsimp only; omega, ends⟩
      have same : items ⟨data, behind, index⟩ = items ⟨data, position, index⟩ := by
        rw [items, items]
        dsimp only
        rw [segments]
        rfl
      exact .skipped ⟨data, behind, index⟩ step valid same
    | cons byte bytes =>
      have valid : Valid ⟨data, behind, following⟩ :=
        ⟨small, by dsimp only; omega, by dsimp only; omega, ends⟩
      have split : items ⟨data, position, index⟩ =
          (⟨position.toNat, byte :: bytes⟩ : Segment).read index.toNat ::
            items ⟨data, behind, following⟩ := by
        rw [items, items]
        dsimp only
        rw [segments, at_following]
        rfl
      exact .found _ ⟨data, behind, following⟩ step valid split

/-- A step does not trap. It gives the first item and leaves the others. -/
theorem next_eq {splitter : Splitter} (valid : splitter.Valid) :
    ∃ behind : Splitter, splitter.next = .ok (splitter.items.head?, behind) ∧
      behind.items = splitter.items.tail ∧ behind.Valid := by
  cases turned valid with
  | finished step none =>
    rw [next_of_finished step, none]
    exact ⟨splitter, rfl, none, valid⟩
  | found item behind step valid split =>
    rw [next_of_found step, split]
    exact ⟨behind, rfl, rfl, valid⟩
  | skipped behind step valid same =>
    have closer := lt_of_turn_skipped step
    obtain ⟨last, given, left, valid⟩ := next_eq valid
    rw [same] at given left
    rw [next_of_skipped step, given]
    exact ⟨last, rfl, left, valid⟩
termination_by splitter.data.size - splitter.position.toNat

/-- What a number of steps give, one after the other. -/
def steps (splitter : Splitter) :
    (number : Nat) → Run (List (Option (Except Malformation ExportName)))
  | 0 => return []
  | number + 1 => do
    let (item, behind) ← splitter.next
    let others ← behind.steps number
    return item :: others

/-- No number of steps traps. They give the items in order, and then nothing. -/
theorem steps_eq {splitter : Splitter} (valid : splitter.Valid) (number : Nat) :
    splitter.steps number =
      .ok ((List.range number).map fun index => splitter.items[index]?) := by
  induction number generalizing splitter with
  | zero => rfl
  | succ number ih =>
    obtain ⟨behind, step, left, valid⟩ := next_eq valid
    rw [steps, step, ok_bind]
    dsimp only
    rw [ih valid, left, List.range_succ_eq_map, List.map_cons, List.map_map,
      List.head?_eq_getElem?]
    simp only [List.getElem?_tail]
    rfl

end Splitter

/-- Splits a list of exports as far as a number of steps go. -/
def splitSteps (data : ByteArray) (number : Nat) :
    Run (Except Malformation (List (Option (Except Malformation ExportName)))) :=
  match Splitter.start data with
  | .error fault => return .error fault
  | .ok splitter => do
    let given ← splitter.steps number
    return .ok given

/-- Splitting a list that can be mapped does not trap, however many steps are made. -/
theorem splitSteps_eq {data : ByteArray} (small : data.size < 2 ^ 63) (number : Nat) :
    splitSteps data number =
      .ok ((ExportNames.split data).map fun items =>
        (List.range number).map fun index => items[index]?) := by
  rw [splitSteps, Splitter.start, ExportNames.split]
  by_cases ends : data.data.back? = some 0
  · have valid : Splitter.Valid ⟨data, 0, 0⟩ := ⟨small, Nat.zero_le _, Nat.le_refl _, ends⟩
    rw [if_pos ends, if_pos ends]
    dsimp only
    rw [Splitter.steps_eq valid]
    rfl
  · rw [if_neg ends, if_neg ends]
    rfl

end KernelExports.Machine
