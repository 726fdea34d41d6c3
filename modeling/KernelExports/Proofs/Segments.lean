import KernelExports.Proofs.StringTables
import KernelExports.ExportNames

/-!
# The strings between NUL bytes

The segments of a byte sequence are its maximal runs of bytes other than NUL, in the order of their
positions. These two properties determine the list of segments, so it is a specification of what
the splitting at NUL bytes finds.
-/

namespace KernelExports.ExportNames

/-- A run of bytes other than NUL that cannot be made longer: it begins at the start or behind a NUL
byte, and it stops at the end or before a NUL byte. -/
def Segment.IsMaximal (segment : Segment) (bytes : List UInt8) : Prop :=
  segment.bytes ≠ [] ∧ 0 ∉ segment.bytes ∧
    ∃ front back, bytes = front ++ (segment.bytes ++ back) ∧ front.length = segment.offset ∧
      (front = [] ∨ front.getLast? = some 0) ∧ (back = [] ∨ back.head? = some 0)

/-- The maximal runs of bytes other than NUL, in order. -/
structure InOrder (bytes : List UInt8) (segments : List Segment) : Prop where
  /-- Earlier segments stand first. -/
  sorted : segments.Pairwise fun first second => first.offset < second.offset
  /-- All maximal runs are there, and nothing else. -/
  mem_iff : ∀ segment, segment ∈ segments ↔ segment.IsMaximal bytes

/-- Only one list holds the maximal runs in order. -/
theorem InOrder.unique {bytes : List UInt8} {first second : List Segment}
    (h : InOrder bytes first) (h' : InOrder bytes second) : first = second := by
  have irreflexive : Std.Irrefl fun a b : Segment => a.offset < b.offset :=
    ⟨fun a => Nat.lt_irrefl a.offset⟩
  have same : first.Perm second := by
    rw [List.perm_ext_iff_of_nodup h.sorted.nodup h'.sorted.nodup]
    intro segment
    rw [h.mem_iff, h'.mem_iff]
  have asymmetric : ∀ a b, a ∈ first → b ∈ second → a.offset < b.offset →
      b.offset < a.offset → a = b := by
    intro a b _ _ lower upper
    exact absurd (Nat.lt_trans lower upper) (Nat.lt_irrefl _)
  exact same.eq_of_pairwise asymmetric h.sorted h'.sorted

/-- The segments of bytes that stand from a position on. -/
def segmentsFrom (position : Nat) (bytes : List UInt8) : List Segment :=
  ((bytes.zipIdx position).splitOnP fun placed => placed.1 == 0).filterMap Segment.ofPlaced?

/-- The segment of a run, unless it is empty. -/
def segmentOf (position : Nat) : List UInt8 → List Segment
  | [] => []
  | byte :: rest => [⟨position, byte :: rest⟩]

/-- A run gives a segment unless it is empty. -/
theorem mem_segmentOf {position : Nat} {run : List UInt8} {segment : Segment} :
    segment ∈ segmentOf position run ↔ segment.bytes ≠ [] ∧ segment = ⟨position, run⟩ := by
  cases run with
  | nil =>
    simp only [segmentOf, List.not_mem_nil, false_iff]
    intro h
    obtain ⟨nonempty, rfl⟩ := h
    exact nonempty rfl
  | cons byte rest =>
    simp only [segmentOf, List.mem_singleton]
    constructor
    · intro same
      rw [same]
      exact ⟨List.cons_ne_nil _ _, rfl⟩
    · exact And.right

/-- The segment of a run with places is the one at the place where the run begins. -/
theorem ofPlaced?_zipIdx (position : Nat) (run : List UInt8) :
    (Segment.ofPlaced? (run.zipIdx position)).toList = segmentOf position run := by
  cases run with
  | nil => rfl
  | cons byte rest =>
    rw [List.zipIdx_cons, Segment.ofPlaced?, List.zipIdx_map_fst]
    rfl

/-- A run without NUL bytes has none at any place. -/
theorem placed_ne_zero {position : Nat} {run : List UInt8} (free : 0 ∉ run) :
    ∀ placed ∈ run.zipIdx position, (placed.1 == 0) = false := by
  intro placed member
  exact beq_false_of_ne (ne_of_mem_of_not_mem (List.fst_mem_of_mem_zipIdx member) free)

/-- A run without NUL bytes is one segment, unless it is empty. -/
theorem segmentsFrom_of_free {position : Nat} {run : List UInt8} (free : 0 ∉ run) :
    segmentsFrom position run = segmentOf position run := by
  rw [segmentsFrom, List.splitOnP_eq_singleton (placed_ne_zero free), ← ofPlaced?_zipIdx]
  cases h : Segment.ofPlaced? (run.zipIdx position) <;> simp [h]

/-- A run and a NUL byte come before the segments behind them. -/
theorem segmentsFrom_append {position : Nat} {run : List UInt8} (free : 0 ∉ run)
    (rest : List UInt8) :
    segmentsFrom position (run ++ 0 :: rest) =
      segmentOf position run ++ segmentsFrom (position + run.length + 1) rest := by
  rw [segmentsFrom, List.zipIdx_append, List.zipIdx_cons,
    List.splitOnP_append_cons_of_forall_mem (placed_ne_zero free) _ (by simp),
    ← ofPlaced?_zipIdx, segmentsFrom]
  cases h : Segment.ofPlaced? (run.zipIdx position) <;> simp [h]

/-- Without a NUL byte there is at most one maximal run, the whole sequence. -/
theorem isMaximal_of_free {run : List UInt8} (free : 0 ∉ run) {segment : Segment} :
    segment.IsMaximal run ↔ segment.bytes ≠ [] ∧ segment = ⟨0, run⟩ := by
  obtain ⟨offset, bytes⟩ := segment
  simp only [Segment.IsMaximal]
  refine and_congr_right fun _ => ?_
  constructor
  · intro h
    obtain ⟨-, front, back, rfl, rfl, starts, stops⟩ := h
    have front_nil : front = [] := by
      refine starts.resolve_right fun last => free ?_
      exact List.mem_append_left _ (List.mem_of_getLast? last)
    have back_nil : back = [] := by
      refine stops.resolve_right fun head => free ?_
      exact List.mem_append_right _ (List.mem_append_right _ (List.mem_of_head? head))
    simp [front_nil, back_nil]
  · intro h
    obtain ⟨rfl, rfl⟩ := Segment.mk.inj h
    exact ⟨free, [], [], by simp, rfl, .inl rfl, .inl rfl⟩

/-- What stands before and what stands behind the first of several marks is found again. -/
theorem first_mark_unique {α : Type} {mark : α} {first second rest rest' : List α}
    (free : mark ∉ first) (free' : mark ∉ second)
    (same : first ++ mark :: rest = second ++ mark :: rest') : first = second ∧ rest = rest' := by
  rcases List.append_eq_append_iff.mp same with ⟨more, rfl, behind⟩ | ⟨more, rfl, behind⟩
  · cases more with
    | nil => simpa using behind
    | cons other more =>
      cases behind
      exact absurd (List.mem_append_right _ List.mem_cons_self) free'
  · cases more with
    | nil => simpa [eq_comm] using behind
    | cons other more =>
      cases behind
      exact absurd (List.mem_append_right _ List.mem_cons_self) free

/-- A maximal run stands either before the first NUL byte or behind it. If it stands behind, it is
maximal in what follows. -/
theorem Segment.IsMaximal.of_append {run rest : List UInt8} (free : 0 ∉ run) {segment : Segment}
    (maximal : segment.IsMaximal (run ++ 0 :: rest)) :
    segment = ⟨0, run⟩ ∨
      ∃ offset, segment.offset = run.length + 1 + offset ∧
        Segment.IsMaximal ⟨offset, segment.bytes⟩ rest := by
  obtain ⟨offset, bytes⟩ := segment
  obtain ⟨nonempty, inner, front, back, split, rfl, starts, stops⟩ := maximal
  dsimp only at nonempty inner split
  rcases starts with rfl | last
  · rw [List.nil_append] at split
    cases back with
    | nil =>
      rw [List.append_nil] at split
      exact absurd (split ▸ List.mem_append_right _ List.mem_cons_self) inner
    | cons zero back =>
      cases stops.resolve_left (List.cons_ne_nil _ _)
      rw [(first_mark_unique free inner split).1]
      exact .inl rfl
  · obtain ⟨others, rfl⟩ := List.getLast?_eq_some_iff.mp last
    rw [List.append_assoc, List.singleton_append] at split
    rcases List.append_eq_append_iff.mp split with ⟨more, rfl, behind⟩ | ⟨more, rfl, behind⟩
    · cases more with
      | nil =>
        cases behind
        exact .inr ⟨0, by simp, nonempty, inner, [], back, rfl, rfl, .inl rfl, stops⟩
      | cons zero more =>
        cases behind
        have place : (run ++ (0 :: more) ++ [0]).length =
            run.length + 1 + (more ++ [0]).length := by
          simp only [List.length_append, List.length_cons, List.length_nil]
          omega
        have whole : more ++ 0 :: (bytes ++ back) = (more ++ [0]) ++ (bytes ++ back) := by
          rw [List.append_assoc, List.singleton_append]
        exact .inr ⟨_, place, nonempty, inner, more ++ [0], back, whole, rfl,
          .inr List.getLast?_concat, stops⟩
    · cases more with
      | nil =>
        cases behind
        exact .inr ⟨0, by simp, nonempty, inner, [], back, rfl, rfl, .inl rfl, stops⟩
      | cons zero more =>
        obtain ⟨rfl, -⟩ := List.cons.inj behind
        exact absurd (List.mem_append_right _ List.mem_cons_self) free

/-- What is maximal behind a NUL byte is maximal in the whole sequence. -/
theorem Segment.IsMaximal.append {rest bytes : List UInt8} {offset : Nat}
    (maximal : Segment.IsMaximal ⟨offset, bytes⟩ rest) (run : List UInt8) :
    Segment.IsMaximal ⟨run.length + 1 + offset, bytes⟩ (run ++ 0 :: rest) := by
  obtain ⟨nonempty, inner, front, back, rfl, rfl, starts, stops⟩ := maximal
  have whole : run ++ 0 :: (front ++ (bytes ++ back)) =
      (run ++ 0 :: front) ++ (bytes ++ back) := by
    rw [List.append_assoc, List.cons_append]
  have place : (run ++ 0 :: front).length = run.length + 1 + front.length := by
    rw [List.length_append, List.length_cons]
    omega
  have last : (run ++ 0 :: front).getLast? = some 0 := by
    rcases starts with rfl | last
    · exact List.getLast?_concat
    · obtain ⟨others, rfl⟩ := List.getLast?_eq_some_iff.mp last
      rw [← List.cons_append, ← List.append_assoc, List.getLast?_concat]
  exact ⟨nonempty, inner, _, back, whole, place, .inr last, stops⟩

/-- Before a NUL byte only the run that it ends is maximal, and behind it maximality is a matter of
what follows. -/
theorem isMaximal_append {run rest : List UInt8} (free : 0 ∉ run) {segment : Segment} :
    segment.IsMaximal (run ++ 0 :: rest) ↔
      (segment.bytes ≠ [] ∧ segment = ⟨0, run⟩) ∨
        ∃ offset, segment.offset = run.length + 1 + offset ∧
          Segment.IsMaximal ⟨offset, segment.bytes⟩ rest := by
  constructor
  · intro maximal
    have nonempty := maximal.1
    rcases maximal.of_append free with same | behind
    · exact .inl ⟨nonempty, same⟩
    · exact .inr behind
  · intro h
    rcases h with ⟨nonempty, rfl⟩ | ⟨offset, place, maximal⟩
    · exact ⟨nonempty, free, [], 0 :: rest, rfl, rfl, .inl rfl, .inr rfl⟩
    · obtain ⟨_, bytes⟩ := segment
      cases place
      exact maximal.append run

/-- The segments are the maximal runs. -/
theorem mem_segmentsFrom {position : Nat} {bytes : List UInt8} {segment : Segment} :
    segment ∈ segmentsFrom position bytes ↔
      ∃ offset, segment.offset = position + offset ∧
        Segment.IsMaximal ⟨offset, segment.bytes⟩ bytes := by
  obtain ⟨place, content⟩ := segment
  induction bytes using nul_induction generalizing position with
  | free run free =>
    rw [segmentsFrom_of_free free, mem_segmentOf]
    simp only [isMaximal_of_free free, Segment.mk.injEq]
    constructor
    · intro h
      obtain ⟨nonempty, rfl, rfl⟩ := h
      exact ⟨0, rfl, nonempty, rfl, rfl⟩
    · intro h
      obtain ⟨offset, rfl, nonempty, rfl, rfl⟩ := h
      exact ⟨nonempty, rfl, rfl⟩
  | cut run rest free ih =>
    rw [segmentsFrom_append free, List.mem_append, mem_segmentOf, ih]
    simp only [isMaximal_append free, Segment.mk.injEq]
    constructor
    · intro h
      rcases h with ⟨nonempty, rfl, rfl⟩ | ⟨offset, rfl, maximal⟩
      · exact ⟨0, rfl, .inl ⟨nonempty, rfl, rfl⟩⟩
      · exact ⟨run.length + 1 + offset, by omega, .inr ⟨offset, rfl, maximal⟩⟩
    · intro h
      obtain ⟨offset, rfl, maximal⟩ := h
      rcases maximal with ⟨nonempty, rfl, rfl⟩ | ⟨behind, rfl, maximal⟩
      · exact .inl ⟨nonempty, rfl, rfl⟩
      · exact .inr ⟨behind, by omega, maximal⟩

/-- Earlier segments come first. -/
theorem sorted_segmentsFrom (position : Nat) (bytes : List UInt8) :
    (segmentsFrom position bytes).Pairwise fun first second => first.offset < second.offset := by
  induction bytes using nul_induction generalizing position with
  | free run free =>
    rw [segmentsFrom_of_free free]
    cases run <;> simp [segmentOf]
  | cut run rest free ih =>
    have alone : (segmentOf position run).Pairwise
        fun first second => first.offset < second.offset := by
      cases run <;> simp [segmentOf]
    have before : ∀ first ∈ segmentOf position run,
        ∀ second ∈ segmentsFrom (position + run.length + 1) rest,
          first.offset < second.offset := by
      intro first member second later
      obtain ⟨-, rfl⟩ := mem_segmentOf.mp member
      obtain ⟨offset, place, -⟩ := mem_segmentsFrom.mp later
      dsimp only
      omega
    rw [segmentsFrom_append free]
    exact List.pairwise_append.mpr ⟨alone, ih _, before⟩

/-- There are no more segments than bytes. -/
theorem length_segmentsFrom_le (position : Nat) (bytes : List UInt8) :
    (segmentsFrom position bytes).length ≤ bytes.length := by
  have short : ∀ position run, (segmentOf position run).length ≤ run.length := by
    intro position run
    cases run <;> simp [segmentOf]
  induction bytes using nul_induction generalizing position with
  | free run free =>
    rw [segmentsFrom_of_free free]
    exact short position run
  | cut run rest free ih =>
    have front := short position run
    have back := ih (position + run.length + 1)
    rw [segmentsFrom_append free, List.length_append, List.length_append, List.length_cons]
    omega

/-- What the splitting at NUL bytes finds are the maximal runs, in order. -/
theorem segments_inOrder (bytes : List UInt8) : InOrder bytes (segments bytes) where
  sorted := sorted_segmentsFrom 0 bytes
  mem_iff segment := by
    change segment ∈ segmentsFrom 0 bytes ↔ _
    rw [mem_segmentsFrom]
    simp

/-- No segment is empty. -/
theorem bytes_ne_nil {bytes : List UInt8} {segment : Segment} (found : segment ∈ segments bytes) :
    segment.bytes ≠ [] :=
  (((segments_inOrder bytes).mem_iff segment).mp found).1

/-- The maximal runs in order are the segments, and nothing else is. -/
theorem inOrder_iff {bytes : List UInt8} {found : List Segment} :
    InOrder bytes found ↔ found = segments bytes := by
  constructor
  · intro h
    exact h.unique (segments_inOrder bytes)
  · intro same
    rw [same]
    exact segments_inOrder bytes

end KernelExports.ExportNames
