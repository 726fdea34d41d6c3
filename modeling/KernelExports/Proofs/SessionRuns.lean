import KernelExports.FileTree
import KernelExports.Proofs.AppendedData
import KernelExports.Proofs.Refusals
import KernelExports.Session

/-!
# Runs over several files

A run comes to its paths in order, up to the first one with a fatal failure. What it writes there is
what it would write for each of these files alone, one behind the other, and its exit code says
whether there is a file without a report. The paths behind a fatal failure have no influence. The
message on a failure is one line that says that there is an error, where, and which one.

Notes tell details of the work on a file. They are on the standard error only if the options ask for
more than one level of them; otherwise nothing is there but the messages on failures.
-/

namespace KernelExports

/-- A note on details, which is shown on request only. -/
def Note.IsDetail (note : Note) : Prop :=
  note.level = .debug ∨ note.level = .trace

/-- Without a request no details are shown. -/
theorem Note.lines_of_details {notes : List Note} (details : ∀ note ∈ notes, note.IsDetail)
    {shown : Level} (coarse : shown.rank ≤ Level.info.rank) (colors : Bool) :
    lines colors shown notes = "" := by
  have hidden : notes.filter (fun note => note.level.rank ≤ shown.rank) = [] := by
    rw [List.filter_eq_nil_iff]
    intro note listed
    have below : Level.info.rank < note.level.rank := by
      rcases details note listed with level | level <;> rw [level] <;> decide
    simp only [decide_eq_true_eq]
    omega
  rw [lines, hidden]
  rfl

namespace Diagnostics

/-- All notes on looking up a section are on details. -/
theorem onFind_details (path : String) (sections : SectionTable) (name : String) :
    ∀ note ∈ onFind path sections name, note.IsDetail := by
  rw [onFind]
  split
  · exact List.forall_mem_singleton.mpr (.inr rfl)
  · exact List.forall_mem_nil _

/-- All notes on opening a file are on details. -/
theorem onOpen_details (files : FileSystem) (path : String) :
    ∀ note ∈ onOpen files path, note.IsDetail := by
  rw [onOpen]
  split
  · exact List.forall_mem_nil _
  · split
    · exact List.forall_mem_singleton.mpr (.inl rfl)
    · exact List.forall_mem_nil _
    · refine List.forall_mem_append.mpr ⟨onFind_details _ _ _, ?_⟩
      split
      · exact List.forall_mem_singleton.mpr (.inl rfl)
      · exact List.forall_mem_nil _

/-- All notes on names that are listed again are on details. -/
theorem onRepeats_details (registry : Registry) (items : List ExportNames.ExportName) :
    ∀ note ∈ onRepeats registry items, note.IsDetail := by
  induction items generalizing registry with
  | nil => exact List.forall_mem_nil _
  | cons item rest ih =>
    rw [onRepeats]
    split
    · exact List.forall_mem_cons.mpr ⟨.inl rfl, ih registry⟩
    · split
      · exact ih _
      · exact List.forall_mem_nil _

/-- All notes on parsing a list of exports are on details. -/
theorem onParse_details (data : ByteArray) : ∀ note ∈ onParse data, note.IsDetail := by
  rw [onParse]
  split
  · exact List.forall_mem_nil _
  · refine List.forall_mem_append.mpr ⟨onRepeats_details _ _, ?_⟩
    split
    · exact List.forall_mem_nil _
    · exact List.forall_mem_singleton.mpr (.inl rfl)

/-- All notes on symbols are on details. -/
theorem onSymbols_details (file : ElfFile) : ∀ note ∈ onSymbols file, note.IsDetail := by
  rw [onSymbols]
  split
  · exact List.forall_mem_nil _
  · exact List.forall_mem_map.mpr fun symbol _ => .inl rfl

/-- All notes on extracting exports are on details. -/
theorem onExtract_details (file : ElfFile) : ∀ note ∈ onExtract file, note.IsDetail := by
  rw [onExtract]
  refine List.forall_mem_append.mpr ⟨onFind_details _ _ _, ?_⟩
  split
  · exact List.forall_mem_nil _
  · exact List.forall_mem_singleton.mpr (.inl rfl)
  · refine List.forall_mem_append.mpr ⟨onParse_details _, ?_⟩
    split
    · exact List.forall_mem_nil _
    · exact List.forall_mem_append.mpr ⟨onFind_details _ _ _, onSymbols_details file⟩

/-- All notes on confirming exports are on details. -/
theorem onConfirm_details (file : ElfFile) (registry : Registry) :
    ∀ note ∈ onConfirm file registry, note.IsDetail := by
  rw [onConfirm]
  refine List.forall_mem_append.mpr ⟨onFind_details _ _ _, ?_⟩
  split
  · exact List.forall_mem_nil _
  · exact List.forall_mem_singleton.mpr (.inl rfl)

/-- All notes on reading a file are on details. -/
theorem onRead_details (files : FileSystem) (confirming : Bool) (path : String) :
    ∀ note ∈ onRead files confirming path, note.IsDetail := by
  have closed : ∀ file, ∀ note ∈ [onClose file], note.IsDetail := fun file =>
    List.forall_mem_singleton.mpr (.inr rfl)
  rw [onRead]
  refine List.forall_mem_append.mpr ⟨onOpen_details files path, ?_⟩
  split
  · exact List.forall_mem_nil _
  · exact List.forall_mem_nil _
  · next file _ =>
    refine List.forall_mem_append.mpr ⟨onExtract_details file, ?_⟩
    split
    · exact List.forall_mem_nil _
    · exact closed file
    · split
      · refine List.forall_mem_append.mpr ⟨onConfirm_details file _, ?_⟩
        split
        · exact List.forall_mem_nil _
        · exact closed file
      · exact closed file

end Diagnostics

/-- Options that ask for at most one more level show no details. -/
theorem Options.rank_level_of_le_one {options : Options} (brief : options.verbose ≤ 1) :
    options.level.rank ≤ Level.info.rank := by
  rcases Nat.le_one_iff_eq_zero_or_eq_one.mp brief with none | one
  · rw [level, none]
    decide
  · rw [level, one]
    decide

/-- After some steps the texts are joined, and the exit code tells of a failure. -/
theorem Outcome.foldl_extend (outcome : Outcome) (steps : List Step) :
    steps.foldl Outcome.extend outcome =
      ⟨if steps.any fun step => step.verdict ≠ .reported then 1 else outcome.exitCode,
        outcome.stdout ++ String.join (steps.map Step.stdout),
        outcome.stderr ++ String.join (steps.map Step.stderr)⟩ := by
  induction steps generalizing outcome with
  | nil => simp
  | cons step rest ih =>
    rw [List.foldl_cons, ih]
    by_cases reported : step.verdict = .reported
    · simp [extend, reported, String.append_assoc]
    · simp [extend, reported, String.append_assoc]

/-- Joining texts that may be missing is joining those that are there. -/
theorem join_map_getD {α : Type} (text? : α → Option String) (list : List α) :
    String.join (list.map fun item => (text? item).getD "") =
      String.join (list.filterMap text?) := by
  induction list with
  | nil => rfl
  | cons item rest ih =>
    rw [List.map_cons, String.join_cons, ih, List.filterMap_cons]
    cases text? item with
    | none => exact String.empty_append
    | some text => rw [Option.getD_some, String.join_cons]

namespace Session

section Reports

variable (files : FileSystem) (colors : Bool) (options : Options)

/-- The report on the file at a path, if there is one. -/
def report? (path : String) : Option String :=
  (Report.ofPath files colors options.report path).toOption

/-- The error because of which there is no report on the file at a path. -/
def failure? (path : String) : Option Error :=
  match Report.ofPath files colors options.report path with
  | .ok _ => none
  | .error error => some error

/-- The message on the failure, if there is one. -/
def message? (path : String) : Option String :=
  (failure? files colors options path).map (failureLine colors path)

/-- Whether the failure is fatal. -/
def endsAt (path : String) : Bool :=
  (failure? files colors options path).any Error.isFatal

/-- The first paths of a list, up to one with a fatal failure, or all of them. -/
def upToFatal (paths : List String) : List String :=
  paths.take (paths.findIdx (endsAt files colors options) + 1)

/-- The paths that a run comes to. -/
def reached : List String :=
  upToFatal files colors options options.paths

end Reports

variable {files : FileSystem} {colors : Bool} {options : Options}

/-- The first path is come to, and the others unless it ends the run. -/
theorem upToFatal_cons (path : String) (rest : List String) :
    upToFatal files colors options (path :: rest) =
      path :: if endsAt files colors options path then []
        else upToFatal files colors options rest := by
  rw [upToFatal, List.findIdx_cons, List.take_succ_cons]
  cases endsAt files colors options path <;> rfl

/-- No path of the list is behind one with a fatal failure. -/
theorem upToFatal_upToFatal (paths : List String) :
    upToFatal files colors options (upToFatal files colors options paths) =
      upToFatal files colors options paths := by
  induction paths with
  | nil => rfl
  | cons path rest ih =>
    rw [upToFatal_cons, upToFatal_cons]
    split
    · rfl
    · rw [ih]

/-- Where a report is written there is no failure, so there is no message and the run goes on. -/
theorem report?_of_ofPath {path text : String}
    (written : Report.ofPath files colors options.report path = .ok text) :
    report? files colors options path = some text ∧
      failure? files colors options path = none ∧
      message? files colors options path = none ∧ endsAt files colors options path = false := by
  have no_failure : failure? files colors options path = none := by rw [failure?, written]
  rw [report?, message?, endsAt, no_failure, written]
  exact ⟨rfl, rfl, rfl, rfl⟩

/-- Where there is a failure there is no report. -/
theorem report?_of_failure? {path : String} {error : Error}
    (failed : failure? files colors options path = some error) :
    report? files colors options path = none := by
  rw [failure?] at failed
  rw [report?]
  split at failed
  · cases failed
  · next unwritten => rw [unwritten]; rfl

/-- There is no report because the exports cannot be read. -/
theorem failure?_eq_some_iff {path : String} {error : Error} :
    failure? files colors options path = some error ↔ readExports files path = .error error := by
  have unreported : Report.ofPath files colors options.report path = .error error ↔
      readExports files path = .error error := Report.ofPath_eq_error_iff
  rw [← unreported, failure?]
  cases Report.ofPath files colors options.report path <;> simp

/-- A message is a line of five parts: that there is an error, in bold red where there are colours,
the path, what is wrong, and the reason behind it if there is one. -/
theorem failureLine_eq (colors : Bool) (path : String) (error : Error) :
    failureLine colors path error =
      (if colors then "\x1b[1;31merror:\x1b[0m" else "error:") ++
        " Failed to read exported symbols of " ++ path ++ ": " ++ error.message ++
        error.cause?.elim "" (": " ++ ·) ++ "\n" := by
  have sequences : Style.boldRed.start ++ "error:" ++ Style.reset =
      "\x1b[1;31merror:\x1b[0m" := by decide
  have blank : " Failed to read exported symbols of " =
      " " ++ "Failed to read exported symbols of " := by decide
  have plain : '\x1b' ∉ "error:".toList := by decide
  rw [failureLine, Style.paint_of_not_mem plain, sequences, blank]
  delta Report.failure
  cases error.cause? with
  | none =>
    simp only [String.append_assoc, Option.elim]
    rfl
  | some cause =>
    simp only [String.append_assoc, Option.elim]
    rfl

/-- There is a message exactly if the exports cannot be read, and it is the one on the error. -/
theorem message?_eq_some_iff {path text : String} :
    message? files colors options path = some text ↔
      ∃ error, readExports files path = .error error ∧ text = failureLine colors path error := by
  simp only [message?, Option.map_eq_some_iff, failure?_eq_some_iff, @eq_comm _ text]

/-- A failure is fatal if a file is refused, and not if the path leads to none. -/
theorem endsAt_iff {path : String} :
    endsAt files colors options path ↔
      ∃ error, readExports files path = .error error ∧ error.Refusal := by
  rw [endsAt, Option.any_eq_true]
  refine exists_congr fun error => ?_
  rw [failure?_eq_some_iff]
  refine and_congr_right fun failed => ⟨fun fatal => ?_, Error.Refusal.isFatal⟩
  rcases readExports_error failed with ⟨reason, -, rfl⟩ | ⟨-, -, -, refusal⟩
  · cases fatal
  · exact refusal

/-- A step writes the report or the message, behind the notes. -/
theorem step_eq (path : String) :
    step files colors options path =
      ⟨(report? files colors options path).getD "",
        notes files colors options path ++ (message? files colors options path).getD "",
        match failure? files colors options path with
        | none => .reported
        | some error => if error.isFatal then .ended else .failed⟩ := by
  rw [step, report?, message?, failure?]
  cases Report.ofPath files colors options.report path with
  | ok text => simp [Except.toOption]
  | error error => rfl

/-- A step ends the run exactly if the failure is fatal. -/
theorem verdict_step_eq_ended_iff (path : String) :
    (step files colors options path).verdict = .ended ↔ endsAt files colors options path := by
  rw [step_eq, endsAt]
  cases failure? files colors options path with
  | none => simp
  | some error => cases fatal : error.isFatal <;> simp [fatal]

/-- A step has no report exactly if there is a failure. -/
theorem verdict_step_ne_reported_iff (path : String) :
    (step files colors options path).verdict ≠ .reported ↔
      (failure? files colors options path).isSome := by
  rw [step_eq]
  cases failure? files colors options path with
  | none => simp
  | some error => cases fatal : error.isFatal <;> simp [fatal]

/-- What is written for a file depends on no other file. -/
theorem step_alone (path : String) :
    step (fun _ => files path) colors options path = step files colors options path :=
  rfl

/-- A run takes one step for each path that it comes to. -/
theorem goOn_eq_foldl (outcome : Outcome) (paths : List String) :
    goOn files colors options outcome paths =
      ((upToFatal files colors options paths).map (step files colors options)).foldl
        Outcome.extend outcome := by
  induction paths generalizing outcome with
  | nil => rfl
  | cons path rest ih =>
    rw [goOn, upToFatal_cons]
    by_cases fatal : endsAt files colors options path
    · have ended := (verdict_step_eq_ended_iff path).mpr fatal
      simp only [ended, fatal, if_true]
      rfl
    · have goes_on := mt (verdict_step_eq_ended_iff path).mp fatal
      simp only [goes_on, fatal, if_false]
      exact ih _

/-- Keeps the texts that are written. -/
def record (written : Step) : StateM (String × String) Unit :=
  modify fun (stdout, stderr) => (stdout ++ written.stdout, stderr ++ written.stderr)

/-- Walking over the files of a fixed file system and keeping the texts is a run. -/
theorem walk_eq_goOn (outcome : Outcome) (paths : List String) :
    (walk (fun path => pure (files path)) record colors options outcome.exitCode paths).run
        (outcome.stdout, outcome.stderr) =
      ((goOn files colors options outcome paths).exitCode,
        (goOn files colors options outcome paths).stdout,
        (goOn files colors options outcome paths).stderr) := by
  induction paths generalizing outcome with
  | nil => rfl
  | cons path rest ih =>
    have next := ih (outcome.extend (step files colors options path))
    have code : (outcome.extend (step files colors options path)).exitCode =
        if (step files colors options path).verdict = .reported then outcome.exitCode else 1 := rfl
    rw [walk, goOn]
    simp only [pure_bind, step_alone, StateT.run_bind]
    cases verdict : (step files colors options path).verdict with
    | reported =>
      rw [code, verdict] at next
      exact next
    | failed =>
      rw [code, verdict] at next
      exact next
    | ended =>
      rw [if_pos rfl, code, verdict]
      rfl

/-- A run is made of what is written for each path that it comes to. -/
theorem run_eq (files : FileSystem) (colors : Bool) (options : Options) :
    run files colors options =
      ⟨if (reached files colors options).any fun path =>
          (failure? files colors options path).isSome then 1 else 0,
        String.join ((reached files colors options).filterMap (report? files colors options)),
        String.join ((reached files colors options).map fun path =>
          notes files colors options path ++ (message? files colors options path).getD "")⟩ := by
  have unreported : ∀ path, decide ((step files colors options path).verdict ≠ .reported) =
      (failure? files colors options path).isSome := fun path => by
    rw [← Bool.decide_coe (failure? files colors options path).isSome]
    exact decide_eq_decide.mpr (verdict_step_ne_reported_iff path)
  have stdout : ∀ path, (step files colors options path).stdout =
      (report? files colors options path).getD "" := fun path => by rw [step_eq]
  have stderr : ∀ path, (step files colors options path).stderr =
      notes files colors options path ++ (message? files colors options path).getD "" :=
    fun path => by rw [step_eq]
  rw [run, goOn_eq_foldl, Outcome.foldl_extend, List.any_map, List.map_map, List.map_map,
    ← join_map_getD]
  simp only [Function.comp_def, unreported, stdout, stderr, Outcome.initial, String.empty_append]
  rfl

/-- A run over one file leaves its report behind, or the message on its failure. -/
theorem run_single (files : FileSystem) (colors : Bool) (options : Options) (path : String) :
    run files colors { options with paths := [path] } =
      ⟨if (failure? files colors options path).isSome then 1 else 0,
        (report? files colors options path).getD "",
        notes files colors options path ++ (message? files colors options path).getD ""⟩ := by
  have same : reached files colors { options with paths := [path] } = [path] := by
    rw [reached, upToFatal_cons]
    split <;> rfl
  rw [run_eq, same, ← join_map_getD]
  simp only [List.map_cons, List.map_nil, String.join_cons, String.join_nil, String.append_empty,
    List.any_cons, List.any_nil, Bool.or_false]
  rfl

/-- A run over several files is composed of the runs over each of them. It comes to the paths up to
the first one with a fatal failure. On the standard output are the reports on these paths, one
behind the other, and nothing for a failure; on the standard error is one message for each failure,
behind the notes on its path. There is a failure exactly where the exports cannot be read, its
message begins with the word for an error and names the path and the error, and it is fatal exactly
if a file is refused. Unless more than one level of notes is asked for there are none, and no note
is more than a detail. The exit code says whether there is a failure. Any further paths might as
well not be there, and walking over the files while the texts are kept comes to the same. -/
theorem run_composed (files : FileSystem) (colors : Bool) (options : Options) :
    (∀ path, run files colors { options with paths := [path] } =
      ⟨if (failure? files colors options path).isSome then 1 else 0,
        (report? files colors options path).getD "",
        notes files colors options path ++ (message? files colors options path).getD ""⟩) ∧
    (∀ path text, message? files colors options path = some text ↔
      ∃ error, readExports files path = .error error ∧
        text = (if colors then "\x1b[1;31merror:\x1b[0m" else "error:") ++
          " Failed to read exported symbols of " ++ path ++ ": " ++ error.message ++
          error.cause?.elim "" (": " ++ ·) ++ "\n") ∧
    (∀ path, endsAt files colors options path ↔
      ∃ error, readExports files path = .error error ∧ error.Refusal) ∧
    (run files colors options).stdout =
      String.join ((reached files colors options).filterMap (report? files colors options)) ∧
    (run files colors options).stderr =
      String.join ((reached files colors options).map fun path =>
        notes files colors options path ++ (message? files colors options path).getD "") ∧
    (options.verbose ≤ 1 →
      (run files colors options).stderr =
        String.join ((reached files colors options).filterMap (message? files colors options))) ∧
    (∀ path, ∀ note ∈ Diagnostics.onRead files options.confirm path, note.IsDetail) ∧
    (run files colors options).exitCode =
      (if (reached files colors options).any fun path =>
        (failure? files colors options path).isSome then 1 else 0) ∧
    run files colors { options with paths := reached files colors options } =
      run files colors options ∧
    (walk (fun path => pure (files path)) record colors options 0 options.paths).run ("", "") =
      ((run files colors options).exitCode, (run files colors options).stdout,
        (run files colors options).stderr) := by
  have written := run_eq files colors options
  have brief_stderr (brief : options.verbose ≤ 1) : (run files colors options).stderr =
      String.join ((reached files colors options).filterMap (message? files colors options)) := by
    have silent : ∀ path, notes files colors options path = "" := fun path =>
      Note.lines_of_details (Diagnostics.onRead_details files options.confirm path)
        (Options.rank_level_of_le_one brief) colors
    simp only [written, silent, String.empty_append, join_map_getD]
  have without_rest : run files colors { options with paths := reached files colors options } =
      run files colors options := by
    have same : reached files colors { options with paths := reached files colors options } =
        reached files colors options := upToFatal_upToFatal options.paths
    rw [run_eq, written, same]
    rfl
  refine ⟨run_single files colors options, ?_, fun path => endsAt_iff, by rw [written],
    by rw [written], brief_stderr, Diagnostics.onRead_details files options.confirm,
    by rw [written], without_rest, walk_eq_goOn .initial options.paths⟩
  intro path text
  rw [message?_eq_some_iff]
  simp only [failureLine_eq]

/-- A directory with a module, a text and, in a directory below, an ELF file of 32 bits. -/
def buildTree : FileTree :=
  .ofFiles [("plain.ko", signedModule.file), ("notes.txt", (Utf8.encode "todo").toByteArray),
    ("old/plain.ko", (ElfFile.magic ++ 1 :: List.replicate 11 0).toByteArray)]

/-- The module is found behind a component that leads nowhere else. -/
theorem lookup_buildTree_module : buildTree.lookup "./plain.ko" = .ok signedModule.file := by
  rw [buildTree]
  generalize signedModule.file = content
  rfl

/-- Its export is listed and confirmed. -/
theorem ofPath_buildTree_module :
    Report.ofPath buildTree.lookup true ⟨true, true⟩ "./plain.ko" =
      .ok ("\x1b[1m./plain.ko\x1b[0m: 1 exported symbols\n     0 alpha\n" ++
        "1 confirmed in .symtab, \x1b[32m0\x1b[0m unconfirmed\n") := by
  have contains := signedModule_contains
  have parsed : ExportNames.parse (["alpha"].flatMap terminated).toByteArray =
      .ok (Registry.empty.run [.insert "alpha" 0]) := rfl
  have extraction := contains.extract_opened "./plain.ko" parsed
  have confirmation : confirm (signedModule.opened [⟨"alpha", 1, 16⟩] "./plain.ko")
      (Registry.empty.run [.insert "alpha" 0]) =
        (.ok 1, Registry.empty.run [.insert "alpha" 0, .mark "alpha"]) := by
    rw [confirm, contains.globalSymbols_opened]
    rfl
  have read := readConfirmedExports_of_confirm (contains.openElf_file lookup_buildTree_module)
    extraction confirmation
  have records : (Registry.empty.run [.insert "alpha" 0, .mark "alpha"]).toList =
      [⟨"alpha", 0, true, none⟩] := by decide +kernel
  have count : (Registry.empty.run [.insert "alpha" 0, .mark "alpha"]).markCount = 1 := by
    decide +kernel
  have text : Report.ofRecords true ⟨true, true⟩ "./plain.ko" [⟨"alpha", 0, true, none⟩] 1 =
      "\x1b[1m./plain.ko\x1b[0m: 1 exported symbols\n     0 alpha\n" ++
        "1 confirmed in .symtab, \x1b[32m0\x1b[0m unconfirmed\n" := by
    rw [Report.ofRecords]
    cbv
  rw [Report.ofPath, if_pos rfl, read]
  dsimp only
  rw [Report.ofRegistry, records, count, text]

/-- Reports with all their parts on the files, with a path that leads nowhere before the last of
them and the first file once more behind it. -/
def buildOptions : Options :=
  ⟨["./plain.ko", "notes.txt", "gone.ko", "old/plain.ko", "plain.ko"], true, true, 1⟩

/-- The module is reported on and the text is passed over. A path that leads nowhere has a message
and the run goes on; the old file has one too, and the module is not reported on again. -/
theorem run_buildTree :
    run buildTree.lookup true buildOptions =
      ⟨1, "\x1b[1m./plain.ko\x1b[0m: 1 exported symbols\n     0 alpha\n" ++
          "1 confirmed in .symtab, \x1b[32m0\x1b[0m unconfirmed\n" ++
          "\x1b[1mnotes.txt\x1b[0m: not an ELF file or no __ksymtab_strings section, skipping\n",
        "\x1b[1;31merror:\x1b[0m Failed to read exported symbols of gone.ko: " ++
          "Failed to open file gone.ko: No such file or directory (os error 2): " ++
          "No such file or directory (os error 2)\n" ++
          "\x1b[1;31merror:\x1b[0m Failed to read exported symbols of old/plain.ko: " ++
          "Unsupported elf class: 1\n"⟩ := by
  obtain ⟨-, message, -, stdout, -, stderr, -, exitCode, -⟩ :=
    run_composed buildTree.lookup true buildOptions
  have text : buildTree.lookup "notes.txt" = .ok (Utf8.encode "todo").toByteArray :=
    FileTree.lookup_of_file? (by decide) (by decide) (by decide) rfl
  have no_elf : ¬ ElfFile.StartsLikeElf (Utf8.encode "todo").toByteArray := by
    rw [← ElfFile.readHeader_eq_notElf_iff]
    decide +kernel
  have old : buildTree.lookup "old/plain.ko" =
      .ok (ElfFile.magic ++ 1 :: List.replicate 11 0).toByteArray :=
    FileTree.lookup_of_file? (by decide) (by decide) (by decide) rfl
  have unopened : readExports buildTree.lookup "gone.ko" =
      .error (.cannotOpen "gone.ko" .notFound) := readExports_of_unopened rfl
  have refused : readExports buildTree.lookup "old/plain.ko" = .error (.unsupportedClass 1) := by
    rw [readExports, openElf, ElfFile.openAt, old]
    rfl
  have skipped : Report.ofPath buildTree.lookup true buildOptions.report "notes.txt" =
      .ok (Report.skipped true "notes.txt") := Report.ofPath_of_not_elf text no_elf
  have module_written : Report.ofPath buildTree.lookup true buildOptions.report "./plain.ko" =
      .ok _ := ofPath_buildTree_module
  obtain ⟨module_report, -, module_message, module_goes_on⟩ := report?_of_ofPath module_written
  obtain ⟨text_report, -, text_message, text_goes_on⟩ := report?_of_ofPath skipped
  have unopened_failure : failure? buildTree.lookup true buildOptions "gone.ko" = _ :=
    failure?_eq_some_iff.mpr unopened
  have refused_failure : failure? buildTree.lookup true buildOptions "old/plain.ko" = _ :=
    failure?_eq_some_iff.mpr refused
  have first_four : reached buildTree.lookup true buildOptions =
      ["./plain.ko", "notes.txt", "gone.ko", "old/plain.ko"] := by
    change upToFatal buildTree.lookup true buildOptions
      ["./plain.ko", "notes.txt", "gone.ko", "old/plain.ko", "plain.ko"] = _
    rw [upToFatal_cons, module_goes_on, upToFatal_cons, text_goes_on, upToFatal_cons, endsAt,
      unopened_failure, upToFatal_cons, endsAt, refused_failure]
    rfl
  have unopened_message := (message "gone.ko" _).mpr ⟨_, unopened, rfl⟩
  have refused_message := (message "old/plain.ko" _).mpr ⟨_, refused, rfl⟩
  have quiet := stderr (by decide)
  rw [first_four, List.filterMap_cons_some module_report, List.filterMap_cons_some text_report,
    List.filterMap_cons_none (report?_of_failure? unopened_failure),
    List.filterMap_cons_none (report?_of_failure? refused_failure), List.filterMap_nil] at stdout
  rw [first_four, List.filterMap_cons_none module_message, List.filterMap_cons_none text_message,
    List.filterMap_cons_some unopened_message, List.filterMap_cons_some refused_message,
    List.filterMap_nil] at quiet
  have code : (run buildTree.lookup true buildOptions).exitCode = 1 := by
    rw [exitCode, first_four]
    simp [unopened_failure]
  exact Outcome.ext code (stdout.trans (by decide +kernel)) (quiet.trans (by decide +kernel))

end Session

end KernelExports
