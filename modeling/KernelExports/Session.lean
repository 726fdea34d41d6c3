import KernelExports.Options

/-!
# A run of the command

A run reports on one path after the other. A file on which there is no report leaves the standard
output alone and gets a message on the standard error; if its error is fatal the run ends there.
The exit code is 1 if there was such a file and 0 otherwise.

What is written for a file depends on nothing but the file, so a run is made of its steps.
-/

namespace KernelExports

/-- What becomes of a run after a file. -/
inductive Verdict where
  /-- There is a report. -/
  | reported
  /-- There is none, and the run goes on. -/
  | failed
  /-- There is none, and the run ends. -/
  | ended
  deriving DecidableEq, Repr

/-- What is written for one file. -/
structure Step where
  /-- The text on the standard output. -/
  stdout : String
  /-- The text on the standard error. -/
  stderr : String
  /-- What becomes of the run. -/
  verdict : Verdict
  deriving DecidableEq, Repr

/-- What a run leaves behind. -/
@[ext]
structure Outcome where
  /-- The exit code. -/
  exitCode : Nat
  /-- The text on the standard output. -/
  stdout : String
  /-- The text on the standard error. -/
  stderr : String
  deriving DecidableEq, Repr

/-- The outcome of a run that has not begun. -/
def Outcome.initial : Outcome :=
  ⟨0, "", ""⟩

/-- The outcome after one more file. -/
def Outcome.extend (outcome : Outcome) (step : Step) : Outcome where
  exitCode := if step.verdict = .reported then outcome.exitCode else 1
  stdout := outcome.stdout ++ step.stdout
  stderr := outcome.stderr ++ step.stderr

namespace Session

/-- The message on a file on which there is no report. -/
def failureLine (colors : Bool) (path : String) (error : Error) : String :=
  Style.boldRed.paint colors "error:" ++ " " ++ Report.failure path error ++ "\n"

/-- The notes on a file that the options ask for. -/
def notes (files : FileSystem) (colors : Bool) (options : Options) (path : String) : String :=
  Note.lines colors options.level (Diagnostics.onRead files options.confirm path)

/-- What is written for the file at a path. -/
def step (files : FileSystem) (colors : Bool) (options : Options) (path : String) : Step :=
  match Report.ofPath files colors options.report path with
  | .ok text => ⟨text, notes files colors options path, .reported⟩
  | .error error =>
    ⟨"", notes files colors options path ++ failureLine colors path error,
      if error.isFatal then .ended else .failed⟩

/-- Goes on with the given paths. -/
def goOn (files : FileSystem) (colors : Bool) (options : Options) (outcome : Outcome) :
    List String → Outcome
  | [] => outcome
  | path :: rest =>
    let written := step files colors options path
    if written.verdict = .ended then outcome.extend written
    else goOn files colors options (outcome.extend written) rest

/-- A run with the given options. -/
def run (files : FileSystem) (colors : Bool) (options : Options) : Outcome :=
  goOn files colors options .initial options.paths

/-- Deals with the given paths one after the other, and gives the exit code. How the content of a
path is had and how text is written is up to the caller. -/
def walk {m : Type → Type} [Monad m] (content : String → m (Except OpenFailure ByteArray))
    (write : Step → m Unit) (colors : Bool) (options : Options) (exitCode : Nat) :
    List String → m Nat
  | [] => pure exitCode
  | path :: rest => do
    let found ← content path
    let written := step (fun _ => found) colors options path
    write written
    match written.verdict with
    | .reported => walk content write colors options exitCode rest
    | .failed => walk content write colors options 1 rest
    | .ended => pure 1

end Session

end KernelExports
