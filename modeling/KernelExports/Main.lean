import KernelExports.Session

/-!
# The command

Walks over the files that the arguments name, where the content of a path is what the system has
there and text goes to the standard streams.
-/

namespace KernelExports

/-- The number of a failure, which is reported with either sign. -/
def failureNumber (code : UInt32) : Nat :=
  if code < 0x80000000 then code.toNat else (0 - code).toNat

/-- What the system reports as the reason why a file cannot be read. -/
def failureOfIO : IO.Error → OpenFailure
  | .noFileOrDirectory _ code details
  | .interrupted _ code details
  | .alreadyExists _ code details
  | .invalidArgument _ code details
  | .permissionDenied _ code details
  | .resourceExhausted _ code details
  | .inappropriateType _ code details
  | .noSuchThing _ code details
  | .otherError code details
  | .resourceBusy code details
  | .resourceVanished code details
  | .unsupportedOperation code details
  | .hardwareFault code details
  | .unsatisfiedConstraints code details
  | .illegalOperation code details
  | .protocolError code details
  | .timeExpired code details => .ofCode (failureNumber code) details
  | .unexpectedEof => .system "Unexpected end of file" 0
  | .userError text => .system text 0

/-- The content of the file at a path. -/
def readContent (path : String) : IO (Except OpenFailure ByteArray) := do
  if path.any (· = '\x00') then return .error .nulInPath
  match ← (IO.FS.readBinFile path).toBaseIO with
  | .ok content => return .ok content
  | .error error => return .error (failureOfIO error)

/-- Writes what is to be written for a file. -/
def writeStep (step : Step) : IO Unit := do
  IO.eprint step.stderr
  IO.print step.stdout

end KernelExports

open KernelExports

/-- The command. -/
def main (arguments : List String) : IO UInt32 := do
  match Options.parse arguments with
  | .error stop =>
    if stop.exitCode = 0 then IO.print stop.message else IO.eprint stop.message
    return UInt32.ofNat stop.exitCode
  | .ok options =>
    let colors := Style.wanted (← IO.getEnv "CLICOLOR_FORCE") (← IO.getEnv "NO_COLOR")
      (← IO.getEnv "CLICOLOR") (← (← IO.getStdout).isTty)
    let exitCode ← Session.walk readContent writeStep colors options 0 options.paths
    return UInt32.ofNat exitCode
