import Checkup.FileTree.Access
import Checkup.Launch.Shell.Format

/-!
# Utilities

Small programs that read files and write to their two streams, and do nothing else.
They are started by themselves or from a script.

* `Utility.Effect` — what a utility writes, and its status.
* `Utility.find?` — the utility of a name.
-/

namespace Checkup.Utility

/-- What a utility runs in. -/
structure Frame where
  /-- the files -/
  files : FileTree
  /-- the directory that paths start from -/
  directory : String

/-- The node that a path of an argument leads to. -/
def Frame.get? (frame : Frame) (path : String) : Option FileTree :=
  frame.files.get? (Path.join frame.directory path)

/-- What a utility does. -/
structure Effect where
  /-- its status -/
  status : Nat := 0
  /-- what it writes to its output -/
  out : List UInt8 := []
  /-- what it writes to its error output -/
  err : List UInt8 := []

/-- Writes a message to the error output and ends with a status. -/
def complain (status : Nat) (message : String) : Effect :=
  { status, err := Shell.bytesOf (message ++ "\n").toList }

/-- Ends with the status of a truth value: zero if it is true. -/
def truth (b : Bool) : Effect := { status := if b then 0 else 1 }

/-! ## Writing -/

/-- Whether an argument of `echo` is a set of options. -/
def isEchoOption (argument : String) : Bool :=
  match argument.toList with
  | '-' :: c :: rest => (c :: rest).all "neE".toList.contains
  | _ => false

/-- Writes arguments with blanks between them. -/
def echo (arguments : List String) : Effect :=
  let options := (arguments.takeWhile isEchoOption).flatMap String.toList
  let line := " ".intercalate (arguments.dropWhile isEchoOption)
  let ending := if options.contains 'n' then [] else Shell.bytesOf ['\n']
  if options.contains 'e' then { out := Shell.escaped true line.toList ++ ending }
  else { out := Shell.bytesOf line.toList ++ ending }

/-- Writes files one after the other; the standard input is empty. -/
def concatenate (frame : Frame) : List String → Effect
  | [] => {}
  | path :: rest =>
    let more := concatenate frame rest
    if path = "-" then more
    else
      match frame.get? path with
      | some (.file content) => { more with out := content.toList ++ more.out }
      | some _ =>
        let complaint := complain 1 ("cat: " ++ path ++ ": Is a directory")
        { more with status := 1, err := complaint.err ++ more.err }
      | none =>
        let complaint := complain 1 ("cat: " ++ path ++ ": No such file or directory")
        { more with status := 1, err := complaint.err ++ more.err }

/-- Writes a line for each text. -/
def lines (texts : List String) : Effect :=
  { out := Shell.bytesOf (texts.flatMap fun t => (t ++ "\n").toList) }

/-- Writes the names in a directory that do not start with a dot. -/
def names (frame : Frame) (path : String) : Effect :=
  match frame.get? path with
  | some (.directory entries) =>
    let visible := (entries.map Prod.fst).filter fun name => name.toList.head? ≠ some '.'
    lines (visible.mergeSort fun a b => a ≤ b)
  | some _ => lines [path]
  | none => complain 2 ("ls: cannot access '" ++ path ++ "': No such file or directory")

/-- Writes the numbers from one to another. -/
def sequence (first last : Nat) : Effect :=
  lines ((List.range' first (last + 1 - first)).map toString)

/-! ## Conditions -/

/-- Whether a path leads to a node of which a property holds. -/
def leadsTo (frame : Frame) (path : String) (holds : FileTree → Bool) : Bool :=
  (frame.get? path).any holds

/-- Compares numbers. -/
def compare (holds : Int → Int → Bool) (a b : String) : Effect :=
  match Text.signed64? a.toList, Text.signed64? b.toList with
  | some a, some b => truth (holds a b)
  | _, _ => { status := 2 }

/-- Evaluates a condition. -/
def test (frame : Frame) : List String → Effect
  | [] => truth false
  | [a] => truth (a ≠ "")
  | ["-n", a] => truth (a ≠ "")
  | ["-z", a] => truth (a = "")
  | ["-e", path] => truth (leadsTo frame path fun _ => true)
  | ["-f", path] => truth (leadsTo frame path FileTree.isFile)
  | ["-d", path] => truth (leadsTo frame path FileTree.isDirectory)
  | [a, "=", b] => truth (a = b)
  | [a, "!=", b] => truth (a ≠ b)
  | [a, "-eq", b] => compare (fun a b => a = b) a b
  | [a, "-ne", b] => compare (fun a b => a ≠ b) a b
  | [a, "-lt", b] => compare (fun a b => a < b) a b
  | [a, "-le", b] => compare (fun a b => a ≤ b) a b
  | [a, "-gt", b] => compare (fun a b => a > b) a b
  | [a, "-ge", b] => compare (fun a b => a ≥ b) a b
  | "!" :: rest =>
    match (test frame rest).status with
    | 0 => truth false
    | 1 => truth true
    | status => { status }
  | _ => { status := 2 }

/-! ## Names -/

/-- The utility of a name. -/
def find? (frame : Frame) (name : String) : Option (List String → Effect) :=
  match name with
  | "true" => some fun _ => {}
  | "false" => some fun _ => { status := 1 }
  | "sleep" => some fun _ => {}
  | "echo" => some echo
  | "printf" => some fun arguments =>
    match arguments with
    | [] => complain 1 "printf: missing operand"
    | text :: arguments => { out := Shell.format text.toList arguments }
  | "cat" => some (concatenate frame)
  | "ls" => some fun arguments => names frame (arguments.headD ".")
  | "seq" => some fun arguments =>
    match arguments.map fun a => Text.unsigned64? a.toList with
    | [some last] => sequence 1 last
    | [some first, some last] => sequence first last
    | _ => { status := 1 }
  | "test" => some (test frame)
  | "[" => some fun arguments => test frame arguments.dropLast
  | _ => none

end Checkup.Utility
