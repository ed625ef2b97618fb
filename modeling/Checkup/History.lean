import Checkup.Calendar
import Checkup.Error
import Checkup.Evaluation.Stored
import Checkup.FileTree.Access
import Checkup.Text.Digits

/-!
# The history of evaluations

Evaluations are kept in a directory of the workspace, one file for each, named
by the second in which it was saved. They are listed newest first.

* `History.stamp?` — the second that a file name speaks of.
* `History.list` — the files with a stamp, newest first.
* `History.load`, `History.store` — one evaluation from and to a path.
* `History.save` — stores an evaluation under the first free stamp from a second
  on, and then drops the oldest ones beyond the limit.
-/

namespace Checkup

/-- Where evaluations are kept, and how many. -/
structure History where
  /-- the path of the directory -/
  directory : String
  /-- the number of evaluations to keep -/
  limit : Nat
  /-- the one just saved is always kept -/
  limit_pos : 0 < limit

namespace History

/-- The history of a workspace. -/
def ofWorkspace (workspace : String) (size : Nat) : History where
  directory := Path.join (Path.join workspace ".statue") "evaluations"
  limit := max size 1
  limit_pos := by omega

/-! ## Stamps -/

/-- How names of stored evaluations start. -/
def namePrefix : String := "evaluation-"

/-- The extension of stored evaluations. -/
def nameExtension : String := "json"

/-- The name of the evaluation saved in a second. -/
def nameOf (stamp : Int) : String := namePrefix ++ toString stamp ++ "." ++ nameExtension

/-- The rest of a list after a beginning. -/
def dropBeginning? (beginning cs : List Char) : Option (List Char) :=
  if beginning.isPrefixOf cs then some (cs.drop beginning.length) else none

/-- The second in which a file was saved, by its name. -/
def stamp? (path : String) : Option Int :=
  if Path.extension? path = some nameExtension then do
    let stem ← Path.stem? path
    let digits ← dropBeginning? namePrefix.toList stem.toList
    Text.signed64? digits
  else none

/-- The date and time at which a file was saved, by its name. -/
def moment? (path : String) : Option Moment := (stamp? path).bind Calendar.ofSeconds?

/-! ## Listing -/

/-- Whether a stamped name is not older than another one; names decide between equal stamps. -/
def notOlder (a b : Int × String) : Bool :=
  if a.1 = b.1 then b.2 ≤ a.2 else b.1 < a.1

/-- The names with a stamp, newest first. -/
def stampedNames (names : List String) : List String :=
  let stamped := names.filterMap fun name => (stamp? name).map (·, name)
  (stamped.mergeSort notOlder).map Prod.snd

/-- The path of a file of the history. -/
def pathOf (h : History) (name : String) : String := Path.join h.directory name

/-- The paths of the stored evaluations, newest first. -/
def list (h : History) (files : FileTree) : Except Error (List String) :=
  if files.hasPath h.directory then
    match files.list? h.directory with
    | some entries => .ok ((stampedNames (entries.map Prod.fst)).map h.pathOf)
    | none => .error .fileSystem
  else .ok []

/-- The path of the stored evaluation with a number, from zero for the newest on. -/
def path (h : History) (files : FileTree) (index : Nat) : Except Error String := do
  let paths ← h.list files
  match paths[index]? with
  | some path => .ok path
  | none => .error (.history (.missing (index + 1) paths.length))

/-- The evaluation stored at a path. -/
def load (files : FileTree) (path : String) : Except Error Evaluation :=
  match files.readText? path with
  | none => .error (.history (.unreadable path))
  | some text =>
    match Evaluation.ofText? text with
    | none => .error .serialization
    | some e => .ok e

/-- The newest stored evaluation. -/
def recent (h : History) (files : FileTree) : Except Error Evaluation := do
  load files (← h.path files 0)

/-! ## Saving -/

/-- Writes an evaluation to a path, with the directories that lead there. -/
def store (files : FileTree) (path : String) (e : Evaluation) : Except Error FileTree := do
  let some files := ((Path.parent? path).map files.makeDirectories?).getD (some files)
    | .error .fileSystem
  let some files := files.write? path e.toText.toUTF8 | .error .fileSystem
  return files

/-- The first second, from `at` on, that no stored evaluation has. As many seconds are
looked at as there are files, and one more; so one of them is free. -/
def freeStamp (h : History) (files : FileTree) (first : Int) : Int :=
  let count := ((files.list? h.directory).getD []).length
  let stamps := (List.range (count + 1)).map fun (n : Nat) => first + Int.ofNat n
  (stamps.find? fun stamp => !files.hasPath (h.pathOf (nameOf stamp))).getD first

/-- Removes what is stored beyond the limit; what cannot be removed stays. -/
def prune (h : History) (files : FileTree) : Except Error FileTree := do
  let paths ← h.list files
  return (paths.drop h.limit).foldl (fun files path => (files.remove? path).getD files) files

/-- Stores an evaluation in the first free second from one on, and prunes. The
result is the path of the new file. -/
def save (h : History) (files : FileTree) (e : Evaluation) (first : Int) :
    Except Error (String × FileTree) := do
  let path := h.pathOf (nameOf (h.freeStamp files first))
  let some files := files.makeDirectories? h.directory | .error .fileSystem
  let some files := files.write? path e.toText.toUTF8 | .error .fileSystem
  return (path, ← h.prune files)

end History

end Checkup
