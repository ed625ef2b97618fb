import Checkup.Text.Utf8

/-!
# Processes

How programs end, and why they may not start.

* `ExitStatus`, `Finished` — the end of a program, and what it wrote.
* `StartError` — why a program did not start, in the words of the operating system.
-/

namespace Checkup

/-- How a program ends. -/
inductive ExitStatus where
  /-- with a status -/
  | code (n : Int32)
  /-- by a signal -/
  | signal (n : Nat)
  deriving DecidableEq, Repr

namespace ExitStatus

/-- Whether a program ended well. -/
def success (s : ExitStatus) : Bool := s = code 0

/-- The status, if the program ended by itself. -/
def code? : ExitStatus → Option Int32
  | code n => some n
  | signal _ => none

/-- The name of a signal. -/
def signalName? : Nat → Option String
  | 1 => some "SIGHUP"
  | 2 => some "SIGINT"
  | 3 => some "SIGQUIT"
  | 4 => some "SIGILL"
  | 5 => some "SIGTRAP"
  | 6 => some "SIGABRT"
  | 7 => some "SIGBUS"
  | 8 => some "SIGFPE"
  | 9 => some "SIGKILL"
  | 10 => some "SIGUSR1"
  | 11 => some "SIGSEGV"
  | 12 => some "SIGUSR2"
  | 13 => some "SIGPIPE"
  | 14 => some "SIGALRM"
  | 15 => some "SIGTERM"
  | _ => none

/-- The end of a program in words. -/
def message : ExitStatus → String
  | code n => "exit status: " ++ toString n.toInt
  | signal n =>
    "signal: " ++ toString n ++
      (match signalName? n with
        | some name => " (" ++ name ++ ")"
        | none => "")

end ExitStatus

/-- A program that has ended. -/
structure Finished where
  /-- how it ended -/
  status : ExitStatus
  /-- what it wrote to its output -/
  out : List UInt8 := []
  /-- what it wrote to its error output -/
  err : List UInt8 := []
  deriving DecidableEq, Repr

/-- Why a program did not start. -/
inductive StartError where
  /-- the program or its directory is not there -/
  | notFound
  /-- the file may not be run -/
  | denied
  /-- a file stands where a directory should -/
  | notADirectory
  /-- the command line has a character that none can have -/
  | badCommandLine
  deriving DecidableEq, Repr

/-- The words of the operating system. -/
def StartError.message : StartError → String
  | notFound => "No such file or directory (os error 2)"
  | denied => "Permission denied (os error 13)"
  | notADirectory => "Not a directory (os error 20)"
  | badCommandLine => "nul byte found in provided data"

/-- Why a program did not start, with its name. -/
def StartError.report (program : String) (e : StartError) : String :=
  "Failed to run \"" ++ program ++ "\": " ++ e.message

end Checkup
