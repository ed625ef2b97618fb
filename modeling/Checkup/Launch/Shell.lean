import Checkup.Launch
import Checkup.Launch.Shell.Syntax
import Checkup.Launch.Utility

/-!
# The shell

Runs scripts of simple commands: its own ones, and utilities. The shell reads
files and writes to its two streams; it changes nothing else.

* `Shell.fields` — the words of a command once parameters have values.
* `Shell.perform` — what the commands do.
* `Shell.run` — a script from its first command on.
* `Shell.start` — the shell with its arguments.
-/

namespace Checkup.Shell

/-- What a script runs in. -/
structure Frame extends Utility.Frame where
  /-- the name of the script -/
  name : String
  /-- its arguments -/
  arguments : List String

/-- How far a script has come. -/
structure State where
  /-- the status of the last command -/
  status : Nat := 0
  /-- what has been written to the output -/
  out : List UInt8 := []
  /-- what has been written to the error output -/
  err : List UInt8 := []

/-! ## Words -/

/-- The number of the shell's own process. -/
def processNumber : String := "1"

/-- The value of a parameter; one that is not set is empty. -/
def parameterValue (frame : Frame) (status : Nat) (name : String) : String :=
  match name with
  | "*" => " ".intercalate frame.arguments
  | "@" => " ".intercalate frame.arguments
  | "#" => toString frame.arguments.length
  | "?" => toString status
  | "$" => processNumber
  | "0" => frame.name
  | name =>
    match Text.unsigned64? name.toList with
    | some n => frame.arguments.getD (n - 1) ""
    | none => ""

/-- Adds characters to the field that is built. -/
def append (field : Option (List Char)) (cs : List Char) : Option (List Char) :=
  some (field.getD [] ++ cs)

/-- Adds a value that is not quoted: blanks end fields. The result is the fields that
are ended, and the one that is built. -/
def appendSplit (field : Option (List Char)) : List Char →
    List (List Char) × Option (List Char)
  | [] => ([], field)
  | c :: rest =>
    if c = ' ' || c = '\t' || c = '\n' then
      let (ended, last) := appendSplit none rest
      (field.toList ++ ended, last)
    else appendSplit (append field [c]) rest

/-- Adds arguments that are quoted: each but the last ends a field. -/
def appendEach (field : Option (List Char)) : List String →
    List (List Char) × Option (List Char)
  | [] => ([], field)
  | [last] => ([], append field last.toList)
  | a :: rest =>
    let (ended, last) := appendEach none rest
    ((field.getD [] ++ a.toList) :: ended, last)

/-- The fields of a word, from the one that is built on. -/
def wordFields (frame : Frame) (status : Nat) (field : Option (List Char)) :
    Word → List (List Char)
  | [] => field.toList
  | .text cs _ :: rest => wordFields frame status (append field cs) rest
  | .parameter "@" true :: rest =>
    let (ended, last) := appendEach field frame.arguments
    ended ++ wordFields frame status last rest
  | .parameter name true :: rest =>
    wordFields frame status (append field (parameterValue frame status name).toList) rest
  | .parameter name false :: rest =>
    let (ended, last) := appendSplit field (parameterValue frame status name).toList
    ended ++ wordFields frame status last rest

/-- The fields of words. -/
def fields (frame : Frame) (status : Nat) (words : List Word) : List String :=
  (words.flatMap (wordFields frame status none)).map String.ofList

/-! ## Commands -/

/-- What a command does. -/
structure Effect extends Utility.Effect where
  /-- how the script ends, if it ends -/
  stop : Option ExitStatus := none

/-- A command that fails with a message. -/
def complain (status : Nat) (message : String) : Effect := ⟨Utility.complain status message, none⟩

/-- Writes arguments with blanks between them; backslashes stand for what they escape. -/
def echo (arguments : List String) : Effect :=
  match arguments with
  | "-n" :: rest => { out := escaped true (" ".intercalate rest).toList }
  | all => { out := escaped true (" ".intercalate all ++ "\n").toList }

/-- Runs a command by its name: a utility, or nothing that there is. -/
def byName (frame : Frame) (complaint : Nat → String → Effect) (name : String)
    (arguments : List String) : Effect :=
  match Utility.find? frame.toFrame name with
  | some utility => ⟨utility arguments, none⟩
  | none =>
    if name.toList.contains '/' && (frame.get? name).isSome then
      complaint 126 (name ++ ": Permission denied")
    else complaint 127 (name ++ ": not found")

/-- The number of a signal, given by number or name. -/
def signalNumber? (text : String) : Option Nat :=
  (Text.unsigned64? text.toList).orElse fun _ =>
    (List.range 16).find? fun n =>
      ExitStatus.signalName? n = some text || ExitStatus.signalName? n = some ("SIG" ++ text)

/-- Sends a signal to a process; only the shell itself is there. -/
def sendSignal (complaint : String → Effect) (signal : Option Nat) (process : String) : Effect :=
  match signal with
  | none => complaint "invalid signal number or name"
  | some n =>
    if process ≠ processNumber then complaint "No such process"
    else if n = 0 || [17, 18, 23, 28].contains n then {}
    else { stop := some (.signal n) }

/-- What a command does; `complaint` starts a message with its place. -/
def perform (frame : Frame) (status : Nat) (complaint : Nat → String → Effect) :
    List String → Effect
  | [] => {}
  | ":" :: _ => {}
  | "read" :: _ => { status := 1 }
  | "echo" :: arguments => echo arguments
  | ["exit"] => { status, stop := some (.code (Int32.ofNat (status % 256))) }
  | "exit" :: n :: _ =>
    match Text.unsigned64? n.toList with
    | some n => { stop := some (.code (Int32.ofNat (n % 256))) }
    | none => { complaint 2 ("exit: Illegal number: " ++ n) with stop := some (.code 2) }
  | ["kill", "-s", signal, process] =>
    sendSignal (fun m => complaint 1 ("kill: " ++ m)) (signalNumber? signal) process
  | ["kill", process] => sendSignal (fun m => complaint 1 ("kill: " ++ m)) (some 15) process
  | ["kill", signal, process] =>
    sendSignal (fun m => complaint 1 ("kill: " ++ m))
      (signalNumber? (String.ofList (signal.toList.drop 1))) process
  | name :: arguments => byName frame complaint name arguments

/-! ## Scripts -/

/-- Where the output and the error output of a command go in the end; a stream that
is none of them goes nowhere. -/
def destinations (redirections : List (Nat × Target)) : Option Nat × Option Nat :=
  redirections.foldl
    (fun (out, err) (stream, target) =>
      let goal := match target with
        | .stream 1 => out
        | .stream 2 => err
        | _ => none
      if stream = 1 then (goal, err) else if stream = 2 then (out, goal) else (out, err))
    (some 1, some 2)

/-- The state after a command has done what it does. -/
def State.after (s : State) (redirections : List (Nat × Target)) (e : Effect) : State :=
  let (out, err) := destinations redirections
  let sent (stream : Nat) :=
    (if out = some stream then e.out else []) ++ (if err = some stream then e.err else [])
  { status := e.status, out := s.out ++ sent 1, err := s.err ++ sent 2 }

/-- Runs the commands of a script. -/
def run (frame : Frame) (s : State) : Script → Finished
  | [] => ⟨.code (Int32.ofNat s.status), s.out, s.err⟩
  | c :: rest =>
    let isDue := match c.condition with
      | .always => true
      | .afterSuccess => s.status = 0
      | .afterFailure => s.status ≠ 0
    if isDue then
      let complaint (status : Nat) (message : String) :=
        complain status (frame.name ++ ": " ++ toString c.line ++ ": " ++ message)
      let e := perform frame s.status complaint (fields frame s.status c.words)
      let s := s.after c.redirections e
      match e.stop with
      | some status => ⟨status, s.out, s.err⟩
      | none => run frame s rest
    else run frame s rest

/-- Runs the text of a script. -/
def runText (frame : Frame) (text : List Char) : Finished :=
  match Script.ofText text with
  | some script => run frame {} script
  | none =>
    ⟨.code 2, [], bytesOf (frame.name ++ ": 1: Syntax error: Unterminated quoted string\n").toList⟩

/-- The shell with its arguments: a script as text, or the file of one. -/
def start (files : FileTree) (directory : String) : List String → Finished
  | [] => ⟨.code 0, [], []⟩
  | ["-c"] => ⟨.code 2, [], bytesOf "sh: 0: -c requires an argument\n".toList⟩
  | ["-c", text] => runText ⟨⟨files, directory⟩, "sh", []⟩ text.toList
  | "-c" :: text :: name :: arguments => runText ⟨⟨files, directory⟩, name, arguments⟩ text.toList
  | path :: arguments =>
    match files.get? (Path.join directory path) with
    | some (.file content) =>
      runText ⟨⟨files, directory⟩, path, arguments⟩ (Text.decode content.toList)
    | some _ => ⟨.code 0, [], []⟩
    | none =>
      ⟨.code 2, [], bytesOf ("sh: 0: cannot open " ++ path ++ ": No such file\n").toList⟩

end Checkup.Shell
