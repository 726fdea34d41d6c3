import KernelExports.Diagnostics
import KernelExports.Report

/-!
# Command line options

The arguments of the command are flags, which start with a dash, and paths, which are everything
else; behind an argument `--` everything is a path. Short flags can be joined behind one dash. No
flag takes a value. Arguments are read from left to right and the first one that is wrong decides
the outcome; a path is looked at only when the next flag has been recognised, or at the end.
-/

namespace KernelExports

/-- What the command is asked to do. -/
structure Options where
  /-- The files to report on, in order. -/
  paths : List String
  /-- List every export. -/
  list : Bool
  /-- Confirm every export. -/
  confirm : Bool
  /-- How often more notes were asked for, at most 255 times. -/
  verbose : Nat
  deriving DecidableEq, Repr

namespace Options

/-- The level of the notes that are shown. -/
def level (options : Options) : Level :=
  match options.verbose with
  | 0 => .warn
  | 1 => .info
  | 2 => .debug
  | _ => .trace

/-- What the reports contain. -/
def report (options : Options) : ReportOptions :=
  ⟨options.list, options.confirm⟩

/-- Why there are no options: a wrong argument, or a question about the command itself. -/
inductive Stop where
  /-- No path is given. -/
  | noPath
  /-- A flag that does not exist. -/
  | unknownFlag (argument : String)
  /-- A value for a flag. -/
  | needlessValue (argument : String)
  /-- A flag that is given twice and counts only once. -/
  | repeatedFlag (argument : String)
  /-- A path that is the empty string. -/
  | emptyPath
  /-- The question what the options are. -/
  | help
  /-- The question what version this is. -/
  | version
  deriving DecidableEq, Repr

/-- What the command accepts. -/
def usage : String :=
  "Usage: kernel-exports [OPTIONS] <PATHS>...\n\n" ++
  "  -l, --list     List every exported symbol with its index\n" ++
  "  -c, --confirm  Look for every exported symbol in the symbol table\n" ++
  "  -v, --verbose  Say more about what is done; can be given several times\n" ++
  "  -h, --help     Print this text\n" ++
  "  -V, --version  Print the version\n"

/-- What the command says if it has no options. -/
def Stop.message : Stop → String
  | noPath => "error: no path is given\n\n" ++ usage
  | unknownFlag argument => s!"error: there is no option {argument}\n\n" ++ usage
  | needlessValue argument => s!"error: {argument} has a value, but the option takes none\n"
  | repeatedFlag argument => s!"error: {argument} is given twice\n"
  | emptyPath => "error: a path is empty\n"
  | help => usage
  | version => "kernel-exports 0.1.0\n"

/-- The exit code of the command: 0 for a question, 2 for a wrong argument. -/
def Stop.exitCode : Stop → Nat
  | help | version => 0
  | noPath | unknownFlag _ | needlessValue _ | repeatedFlag _ | emptyPath => 2

/-- The flags. -/
inductive Flag where
  | list
  | confirm
  | verbose
  | help
  | version
  deriving DecidableEq, Repr

/-- The flag that a letter stands for. -/
def Flag.ofLetter? : Char → Option Flag
  | 'l' => some list
  | 'c' => some confirm
  | 'v' => some verbose
  | 'h' => some help
  | 'V' => some version
  | _ => none

/-- The flag that a word stands for. -/
def Flag.ofWord? : String → Option Flag
  | "list" => some list
  | "confirm" => some confirm
  | "verbose" => some verbose
  | "help" => some help
  | "version" => some version
  | _ => none

/-- Verbosity beyond this number makes no difference. -/
def maxVerbose : Nat := 255

/-- No options yet. -/
def initial : Options :=
  ⟨[], false, false, 0⟩

/-- Takes a flag into account. The paths before it are looked at first. -/
def give (options : Options) (argument : String) (flag : Flag) : Except Stop Options :=
  if options.paths.contains "" then .error .emptyPath
  else
    match flag with
    | .list =>
      if options.list then .error (.repeatedFlag argument) else .ok { options with list := true }
    | .confirm =>
      if options.confirm then .error (.repeatedFlag argument)
      else .ok { options with confirm := true }
    | .verbose => .ok { options with verbose := min maxVerbose (options.verbose + 1) }
    | .help => .error .help
    | .version => .error .version

/-- Takes the letters of an argument with one dash into account. -/
def giveLetters (options : Options) (argument : String) : List Char → Except Stop Options
  | [] => .ok options
  | letter :: rest =>
    match Flag.ofLetter? letter with
    | none => .error (.unknownFlag argument)
    | some flag =>
      match options.give argument flag with
      | .error stop => .error stop
      | .ok given => giveLetters given argument rest

/-- Takes the word of an argument with two dashes into account. -/
def giveWord (options : Options) (argument : String) (word : List Char) : Except Stop Options :=
  match Flag.ofWord? (String.ofList (word.takeWhile (· ≠ '='))) with
  | none => .error (.unknownFlag argument)
  | some flag =>
    if word.contains '=' then .error (.needlessValue argument) else options.give argument flag

/-- Takes arguments into account, the paths in the order in which they are given. -/
def giveAll (options : Options) : List String → Except Stop Options
  | [] => .ok options
  | argument :: rest =>
    match argument.toList with
    | ['-', '-'] => .ok { options with paths := options.paths ++ rest }
    | '-' :: '-' :: word =>
      match options.giveWord argument word with
      | .error stop => .error stop
      | .ok given => giveAll given rest
    | '-' :: letter :: letters =>
      match options.giveLetters argument (letter :: letters) with
      | .error stop => .error stop
      | .ok given => giveAll given rest
    | _ => giveAll { options with paths := options.paths ++ [argument] } rest

/-- The options that the arguments of the command ask for. -/
def parse (arguments : List String) : Except Stop Options :=
  match initial.giveAll arguments with
  | .error stop => .error stop
  | .ok options =>
    if options.paths.contains "" then .error .emptyPath
    else if options.paths = [] then .error .noPath
    else .ok options

end Options

end KernelExports
