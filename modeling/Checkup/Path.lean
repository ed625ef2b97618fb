import Checkup.Text.Pieces

/-!
# Path text

Paths are text with `/` between components. Only the text is looked at, never
the file system.

* `Path.components` — repeated slashes, trailing slashes and inner dots do not
  count; a leading dot and a leading slash do.
* `Path.isWithin` — component-wise containment, so `src` contains `src/a` and
  not `srcs`.
* `Path.join`, `Path.parent?`, `Path.fileName?`, `Path.stem?`, `Path.extension?`.
-/

namespace Checkup.Path

/-- Whether a piece stands for a component: it is neither empty nor a dot. -/
def isSignificant (piece : List Char) : Bool :=
  piece ≠ [] && piece ≠ ['.']

/-- The components of a path. An absolute path starts with the component `/`, a
path that starts with a dot keeps it. -/
def components (path : String) : List String :=
  match Text.pieces '/' path.toList with
  | [] => []
  | first :: rest =>
    let tail := (rest.filter isSignificant).map String.ofList
    if first = [] then
      if rest = [] then [] else "/" :: tail
    else String.ofList first :: tail

/-- Whether the path is `base` or lies below it. -/
def isWithin (path base : String) : Bool :=
  (components base).isPrefixOf (components path)

/-- Whether the path starts at the root. -/
def isAbsolute (path : String) : Bool := path.toList.head? = some '/'

/-- The path of `child` seen from `parent`; an absolute child stays as it is. -/
def join (parent child : String) : String :=
  if isAbsolute child then child
  else if parent = "" then child
  else if parent.toList.getLast? = some '/' then parent ++ child
  else parent ++ "/" ++ child

/-- The path without its last component; the root and the empty path have none. -/
def parent? (path : String) : Option String :=
  match components path with
  | [] => none
  | ["/"] => none
  | "/" :: rest => some ("/" ++ "/".intercalate rest.dropLast)
  | all => some ("/".intercalate all.dropLast)

/-- The last component, unless it is the root, a dot or a double dot. -/
def fileName? (path : String) : Option String :=
  match (components path).getLast? with
  | some "/" => none
  | some "." => none
  | some ".." => none
  | last => last

/-- Splits a file name at its last dot. A name without a dot, or with only a
leading one, has no extension. -/
def splitExtension (name : String) : String × Option String :=
  if name = ".." then (name, none)
  else
    let reversed := name.toList.reverse
    let extension := reversed.takeWhile (· ≠ '.')
    match reversed.dropWhile (· ≠ '.') with
    | [] => (name, none)
    | [_] => (name, none)
    | _ :: stem => (String.ofList stem.reverse, some (String.ofList extension.reverse))

/-- The file name without its extension. -/
def stem? (path : String) : Option String :=
  (fileName? path).map fun name => (splitExtension name).1

/-- What follows the last dot of the file name. -/
def extension? (path : String) : Option String :=
  (fileName? path).bind fun name => (splitExtension name).2

end Checkup.Path
