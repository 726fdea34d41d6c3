import KernelExports.Elf.File

/-!
# Files in memory

A directory with files in it and below it, held in memory, as the file system that relative paths
are looked up in. A path is followed one component at a time, and the first component that cannot
be followed decides how the lookup fails. Paths that lead out of the directory lead nowhere.
-/

namespace KernelExports

/-- A directory: the files below it, each with the names that lead to it. -/
structure FileTree where
  /-- The names of the directories on the way and of the file itself, and its content. -/
  files : List (List String × ByteArray)

namespace FileTree

/-- Bytes that a path may have. -/
def maxPathSize : Nat := 4095

/-- Bytes that a component of a path may have. -/
def maxNameSize : Nat := 255

/-- The components of a path: what stands between its slashes. -/
def components (path : String) : List String :=
  (path.toList.splitOn '/').map String.ofList

/-- Whether a component leads from a directory back to the directory itself. -/
def StaysAt (name : String) : Prop :=
  name = "" ∨ name = "."

instance : DecidablePred StaysAt := fun _ => inferInstanceAs (Decidable (_ ∨ _))

/-- The directory that holds the given files. Of two files with the same path the later one is
kept. -/
def ofFiles (files : List (String × ByteArray)) : FileTree :=
  ⟨(files.map fun (path, content) =>
    ((components path).filter fun name => ¬ StaysAt name, content)).reverse⟩

/-- The content of the file to which the given names lead. -/
def file? (tree : FileTree) (names : List String) : Option ByteArray :=
  (tree.files.find? fun file => file.1 = names).map Prod.snd

/-- Whether the given names lead to a directory. -/
def isDirectory (tree : FileTree) (names : List String) : Bool :=
  names = [] ∨ tree.files.any fun file => names.isPrefixOf file.1 ∧ file.1 ≠ names

/-- Follows the components of a path from the place to which `here` leads. -/
def follow (tree : FileTree) (here : List String) : List String → Except OpenFailure ByteArray
  | [] =>
    match tree.file? here with
    | some content => .ok content
    | none => .error .noContent
  | name :: rest =>
    if !tree.isDirectory here then .error .notADirectory
    else if StaysAt name then tree.follow here rest
    else if name = ".." then
      if here = [] then .error .notFound else tree.follow here.dropLast rest
    else if maxNameSize < name.utf8ByteSize then .error .nameTooLong
    else
      let there := here ++ [name]
      if (tree.file? there).isSome ∨ tree.isDirectory there then tree.follow there rest
      else .error .notFound

/-- The content that a path leads to. -/
def lookup (tree : FileTree) : FileSystem := fun path =>
  if '\x00' ∈ path.toList then .error .nulInPath
  else if path = "" then .error .notFound
  else if maxPathSize < path.utf8ByteSize then .error .nameTooLong
  else if path.toList.head? = some '/' then .error .notFound
  else tree.follow [] (components path)

/-- Whether a component is the name of something in a directory. -/
def IsName (name : String) : Prop :=
  ¬ StaysAt name ∧ name ≠ ".." ∧ name.utf8ByteSize ≤ maxNameSize

instance : DecidablePred IsName := fun _ => inferInstanceAs (Decidable (_ ∧ _ ∧ _))

variable {tree : FileTree} {here : List String} {content : ByteArray}

/-- Names that lead to a file lead to directories before. -/
theorem isDirectory_of_file? {name : String} {rest : List String}
    (stands : tree.file? (here ++ name :: rest) = some content) : tree.isDirectory here = true := by
  obtain ⟨file, found, -⟩ := Option.map_eq_some_iff.mp stands
  have listed := List.mem_of_find?_eq_some found
  have names : file.1 = here ++ name :: rest := by simpa using List.find?_some found
  have below : here.isPrefixOf file.1 ∧ file.1 ≠ here := by
    rw [names]
    exact ⟨List.isPrefixOf_iff_prefix.mpr (List.prefix_append _ _), by simp⟩
  rw [isDirectory, decide_eq_true_iff, List.any_eq_true]
  exact .inr ⟨file, listed, decide_eq_true below⟩

/-- Names of directories, and of a file in the last of them, lead to the file. -/
theorem follow_of_file? {names : List String} (named : ∀ name ∈ names, IsName name)
    (stands : tree.file? (here ++ names) = some content) :
    tree.follow here names = .ok content := by
  induction names generalizing here with
  | nil =>
    rw [List.append_nil] at stands
    rw [follow, stands]
  | cons name rest ih =>
    obtain ⟨⟨moves, down, short⟩, later⟩ := List.forall_mem_cons.mp named
    have behind : tree.file? (here ++ [name] ++ rest) = some content := by
      rwa [List.append_assoc, List.singleton_append]
    have leads : (tree.file? (here ++ [name])).isSome ∨ tree.isDirectory (here ++ [name]) := by
      cases rest with
      | nil =>
        rw [List.append_nil] at behind
        exact .inl (by rw [behind]; rfl)
      | cons next others => exact .inr (isDirectory_of_file? behind)
    rw [follow, isDirectory_of_file? stands, if_neg (by simp), if_neg moves, if_neg down,
      if_neg (Nat.not_lt.mpr short)]
    exact (if_pos leads).trans (ih later behind)

/-- A path of names that is not too long leads to the file with these names. -/
theorem lookup_of_file? {path : String} (no_nul : '\x00' ∉ path.toList)
    (short : path.utf8ByteSize ≤ maxPathSize) (named : ∀ name ∈ components path, IsName name)
    (stands : tree.file? (components path) = some content) : tree.lookup path = .ok content := by
  have nonempty : path ≠ "" := by
    rintro rfl
    exact (named "" (by decide)).1 (.inl rfl)
  have relative : path.toList.head? ≠ some '/' := by
    intro slash
    obtain ⟨rest, chars⟩ := List.head?_eq_some_iff.mp slash
    have root : "" ∈ components path := by
      rw [components, chars, List.splitOn_eq_splitOnP, List.splitOnP_cons_eq_if_modifyHead]
      exact List.mem_cons_self
    exact (named "" root).1 (.inl rfl)
  rw [lookup, if_neg no_nul, if_neg nonempty, if_neg (Nat.not_lt.mpr short), if_neg relative]
  exact follow_of_file? named stands

end FileTree

end KernelExports
