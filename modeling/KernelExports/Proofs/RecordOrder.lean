import KernelExports.Report
import KernelExports.Proofs.RegistryRuns

/-!
# Records in order

Records are sorted by value and then by name, and what is not marked is sorted by value alone. The
first is a total order of values and names, so these are the same at every place of a sorted list,
in whatever order the records were given. The second leaves no choice as long as all values differ.
-/

namespace KernelExports

namespace Record

/-- What the place of a record among others depends on. -/
def key (record : Record) : UInt64 × String :=
  (record.value, record.name)

/-- The order of values, where names decide between equal ones. -/
def KeyLe (first second : UInt64 × String) : Prop :=
  first.1 < second.1 ∨ first.1 = second.1 ∧ first.2 ≤ second.2

/-- Records are compared by their keys. -/
theorem before_iff {first second : Record} :
    first.before second = true ↔ KeyLe first.key second.key := by
  rw [before, decide_eq_true_eq]
  rfl

/-- The order of keys is transitive. -/
theorem KeyLe.trans {first second third : UInt64 × String} (lower : KeyLe first second)
    (upper : KeyLe second third) : KeyLe first third := by
  rcases lower with lower | ⟨same, lower⟩
  · rcases upper with upper | ⟨same', -⟩
    · exact .inl (UInt64.lt_trans lower upper)
    · exact .inl (same' ▸ lower)
  · rcases upper with upper | ⟨same', upper⟩
    · exact .inl (same ▸ upper)
    · exact .inr ⟨same.trans same', String.le_trans lower upper⟩

/-- The order of keys is total. -/
theorem KeyLe.total (first second : UInt64 × String) :
    KeyLe first second ∨ KeyLe second first := by
  by_cases same : first.1 = second.1
  · rcases String.le_total first.2 second.2 with lower | upper
    · exact .inl (.inr ⟨same, lower⟩)
    · exact .inr (.inr ⟨same.symm, upper⟩)
  · rcases UInt64.le_total first.1 second.1 with lower | upper
    · exact .inl (.inl (UInt64.lt_of_le_of_ne lower same))
    · exact .inr (.inl (UInt64.lt_of_le_of_ne upper (Ne.symm same)))

/-- Keys that come before each other are the same. -/
theorem KeyLe.antisymm {first second : UInt64 × String} (lower : KeyLe first second)
    (upper : KeyLe second first) : first = second := by
  rcases lower with lower | ⟨same, lower⟩
  · rcases upper with upper | ⟨same, -⟩
    · exact absurd upper (UInt64.lt_asymm lower)
    · exact absurd same (UInt64.ne_of_lt lower).symm
  · rcases upper with upper | ⟨-, upper⟩
    · exact absurd same (UInt64.ne_of_lt upper).symm
    · exact Prod.ext same (String.le_antisymm lower upper)

end Record

open Record

namespace Registry

/-- Sorting by value keeps the records. -/
theorem sortByValue_perm (records : List Record) : (sortByValue records).Perm records :=
  List.mergeSort_perm records before

/-- Sorting by value puts the keys in order. -/
theorem pairwise_sortByValue (records : List Record) :
    ((sortByValue records).map key).Pairwise KeyLe := by
  have transitive : ∀ first second third : Record, first.before second = true →
      second.before third = true → first.before third = true := fun _ _ _ lower upper =>
    before_iff.mpr ((before_iff.mp lower).trans (before_iff.mp upper))
  have total : ∀ first second : Record, (first.before second || second.before first) = true := by
    intro first second
    rw [Bool.or_eq_true, before_iff, before_iff]
    exact KeyLe.total first.key second.key
  exact List.pairwise_map.mpr
    ((List.pairwise_mergeSort transitive total records).imp before_iff.mp)

/-- The values and names of the listed records are those that a lookup finds. -/
theorem WellFormed.mem_keys_iff {registry : Registry} (wellFormed : registry.WellFormed)
    {value : UInt64} {name : String} :
    (value, name) ∈ registry.toList.map key ↔
      ∃ record, registry.get? name = some record ∧ record.value = value := by
  simp only [List.mem_map, wellFormed.get?_eq_some_iff, key, Prod.mk.injEq, and_assoc,
    and_comm (a := _ = value)]

/-- There is only one way to have values and names in order. -/
theorem map_key_sortByValue {records : List Record} {keys : List (UInt64 × String)}
    (sorted : keys.Pairwise KeyLe) (same : (records.map key).Perm keys) :
    (sortByValue records).map key = keys :=
  List.Perm.eq_of_pairwise (fun _ _ _ _ => KeyLe.antisymm) (pairwise_sortByValue records) sorted
    (((sortByValue_perm records).map key).trans same)

end Registry

namespace Report

/-- Sorting by index keeps the names with their indices. -/
theorem sortByIndex_perm (unmarked : List (String × UInt64)) :
    (sortByIndex unmarked).Perm unmarked :=
  List.mergeSort_perm unmarked _

/-- Sorting by index puts the indices in order. -/
theorem pairwise_sortByIndex (unmarked : List (String × UInt64)) :
    (sortByIndex unmarked).Pairwise fun first second => first.2 ≤ second.2 := by
  have transitive : ∀ first second third : String × UInt64, decide (first.2 ≤ second.2) = true →
      decide (second.2 ≤ third.2) = true → decide (first.2 ≤ third.2) = true := by
    simp only [decide_eq_true_eq]
    exact fun _ _ _ lower upper => UInt64.le_trans lower upper
  have total : ∀ first second : String × UInt64,
      (decide (first.2 ≤ second.2) || decide (second.2 ≤ first.2)) = true := by
    simp only [Bool.or_eq_true, decide_eq_true_eq]
    exact fun first second => UInt64.le_total first.2 second.2
  exact (List.pairwise_mergeSort transitive total unmarked).imp of_decide_eq_true

/-- Where all values differ there is only one way to have them in order. -/
theorem sortByIndex_eq_of_perm {first second : List (String × UInt64)}
    (apart : (first.map Prod.snd).Nodup) (same : first.Perm second) :
    sortByIndex first = sortByIndex second := by
  have perm : (sortByIndex first).Perm (sortByIndex second) :=
    ((sortByIndex_perm first).trans same).trans (sortByIndex_perm second).symm
  refine List.Perm.eq_of_pairwise ?_ (pairwise_sortByIndex first) (pairwise_sortByIndex second) perm
  intro entry entry' listed listed' lower upper
  have here : entry ∈ first := (sortByIndex_perm first).mem_iff.mp listed
  have here' : entry' ∈ first :=
    same.mem_iff.mpr ((sortByIndex_perm second).mem_iff.mp listed')
  exact List.inj_on_of_nodup_map apart here here' (UInt64.le_antisymm lower upper)

/-- Equal values would show the order in which the names came. -/
example : sortByIndex [("a", 0), ("b", 0)] = [("a", 0), ("b", 0)] ∧
    sortByIndex [("b", 0), ("a", 0)] = [("b", 0), ("a", 0)] := by
  constructor <;> cbv

/-- The lines for all records are determined by their values and names. -/
theorem listing_eq_of_keys {records : List Record} {keys : List (UInt64 × String)}
    (sorted : keys.Pairwise KeyLe) (same : (records.map key).Perm keys) :
    listing records = String.join (keys.map fun (value, name) => line value name) := by
  rw [listing, ← Registry.map_key_sortByValue sorted same, List.map_map]
  rfl

end Report

end KernelExports
