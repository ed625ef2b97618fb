import Checkup.FileTree.Access
import Checkup.Path
import Checkup.Source

/-!
# Discovering sources

The sources of a workspace are found at its top level: Python files, and
directories that hold one at any depth. Hidden entries and directories of
builds, packages and environments do not count, wherever they stand.

* `Discovery.containsPython` — whether a directory holds a Python file.
* `Discovery.sources` — the sources, in the order of their names.
-/

namespace Checkup.Discovery

/-- Directories that never hold sources. -/
def ignoredDirectories : List String :=
  ["venv", "env", "build", "dist", "node_modules", "target", "__pycache__"]

/-- Whether a name is hidden. -/
def isHidden (name : String) : Bool := name.toList.head? = some '.'

/-- Whether directories of a name never hold sources. -/
def isIgnoredDirectory (name : String) : Bool :=
  ignoredDirectories.contains name || ".egg-info".toList.isSuffixOf name.toList

/-- Whether an entry does not count. -/
def isIgnored (name : String) (node : FileTree) : Bool :=
  isHidden name || (node.isDirectory && isIgnoredDirectory name)

/-- Whether a name is that of a Python file. -/
def isPythonName (name : String) : Bool := (Path.splitExtension name).2 = some "py"

mutual

/-- Whether a directory holds a regular Python file, at any depth. -/
def containsPython : FileTree → Bool
  | .directory entries => anyPython entries
  | _ => false

/-- Whether some entry is a regular Python file or a directory that holds one. -/
def anyPython : List (String × FileTree) → Bool
  | [] => false
  | (name, node) :: rest =>
    (!isIgnored name node && ((node.isFile && isPythonName name) || containsPython node)) ||
      anyPython rest

end

/-- Whether an entry of the top level is a source. Links count by their names. -/
def isSource (name : String) (node : FileTree) : Bool :=
  !isIgnored name node &&
    if node.isDirectory then containsPython node else isPythonName name

/-- The contexts of a source: tests are checked as tests, the setup script fast. -/
def contextsFor (name : String) : List String :=
  if name = "test" || name = "tests" then ["test"]
  else if name = "setup.py" then ["fast"]
  else []

/-- The names of the sources among entries, in order. -/
def sourceNames (entries : List (String × FileTree)) : List String :=
  ((entries.filter fun (name, node) => isSource name node).map Prod.fst).mergeSort (· ≤ ·)

/-- The sources of a workspace. -/
def sources (files : FileTree) (workspace : String) : Option Sources := do
  let root ← files.get? workspace
  return OrderedMap.ofList <| (sourceNames root.entries).map fun name =>
    (name, { contexts := contextsFor name })

end Checkup.Discovery
