import KernelExports.Proofs.ByteRanges
import KernelExports.Elf.SectionTable

/-!
# Where the section names stand

The names of the sections are the content of one of the sections, under an index that the headers
state. A table that is not empty and has no section under that index is refused; any other table is
as good as the content of that section, whatever the file is.
-/

namespace KernelExports.SectionTable

/-- The header of the section that holds the section names. -/
def nameHeader? (header : FileHeader) (headers : List SectionHeader) : Option SectionHeader :=
  headers.head?.bind fun reserved => headers[nameIndex header reserved]?

/-- There are sections, but none of them is under the index of the section names. Index 0 is
reserved. -/
def MissesNames (header : FileHeader) (headers : List SectionHeader) : Prop :=
  ∃ reserved, headers.head? = some reserved ∧
    (nameIndex header reserved = 0 ∨ headers.length ≤ nameIndex header reserved)

variable {header : FileHeader} {headers : List SectionHeader}

/-- A table without names is refused, and the fault says under which index they should be. -/
theorem ofHeaders_of_missesNames (misses : MissesNames header headers) :
    ∃ reserved, headers.head? = some reserved ∧ ∀ bytes,
      ofHeaders bytes header headers = .error (.nameTableIndex (nameIndex header reserved)) := by
  obtain ⟨reserved, leads, bad⟩ := misses
  obtain ⟨others, rfl⟩ := List.head?_eq_some_iff.mp leads
  refine ⟨reserved, leads, fun bytes => ?_⟩
  rw [ofHeaders]
  cases place : nameIndex header reserved with
  | zero => rfl
  | succ before =>
    have behind : others[before]? = none := by
      rw [place, List.length_cons] at bad
      exact List.getElem?_eq_none (by omega)
    dsimp only
    rw [behind]

/-- Otherwise the table is given by the section names, if there are sections. There are then more of
them than the reserved one. -/
theorem nameHeader_cases (good : ¬ MissesNames header headers) :
    headers = [] ∨ ∃ entry, nameHeader? header headers = some entry ∧ headers.tail ≠ [] ∧
      ∀ bytes, ofHeaders bytes header headers =
        (readNames bytes entry).map fun names => ⟨headers, names⟩ := by
  cases headers with
  | nil => exact .inl rfl
  | cons reserved others =>
    right
    have bound : ¬ (nameIndex header reserved = 0 ∨
        (reserved :: others).length ≤ nameIndex header reserved) :=
      fun bad => good ⟨reserved, rfl, bad⟩
    rw [List.length_cons] at bound
    obtain ⟨before, place⟩ := Nat.exists_eq_add_one_of_ne_zero (mt .inl bound)
    have inside : before < others.length := by omega
    have stands : others[before]? = some others[before] := List.getElem?_eq_getElem inside
    refine ⟨others[before], ?_, List.ne_nil_of_length_pos (Nat.zero_lt_of_lt inside),
      fun bytes => ?_⟩
    · rw [nameHeader?, List.head?_cons, Option.bind_some, place, List.getElem?_cons_succ, stands]
    · simp only [ofHeaders, place, stands]
      cases readNames bytes others[before] <;> rfl

/-- A table that could be made of headers does not miss its names. -/
theorem not_missesNames_of_ofHeaders {bytes : ByteArray} {table : SectionTable}
    (read : ofHeaders bytes header headers = .ok table) : ¬ MissesNames header headers := by
  intro misses
  obtain ⟨reserved, -, failed⟩ := ofHeaders_of_missesNames misses
  rw [failed] at read
  cases read

/-- The section names are the bytes that their header points to. -/
theorem slice?_of_readNames {bytes names : ByteArray} {entry : SectionHeader}
    (read : readNames bytes entry = .ok names) :
    slice? bytes entry.offset.toNat entry.size.toNat = some names := by
  rw [readNames] at read
  split at read
  · cases read
  · split at read
    · next part found =>
      cases read
      exact found
    · cases read

/-- The section names are the content of the section under their index. -/
theorem exists_nameHeader {bytes : ByteArray} {table : SectionTable}
    (read : ofHeaders bytes header headers = .ok table) (nonempty : headers ≠ []) :
    ∃ entry, nameHeader? header headers = some entry ∧
      slice? bytes entry.offset.toNat entry.size.toNat = some table.names := by
  obtain ⟨entry, stands, -, given⟩ :=
    (nameHeader_cases (not_missesNames_of_ofHeaders read)).resolve_left nonempty
  rw [given] at read
  cases names : readNames bytes entry with
  | error fault =>
    rw [names] at read
    cases read
  | ok content =>
    rw [names] at read
    cases read
    exact ⟨entry, stands, slice?_of_readNames names⟩

end KernelExports.SectionTable
