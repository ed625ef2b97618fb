import Checkup.OrderedMap

/-!
# File trees

A workspace as a value: files, directories and symbolic links. A place in a
tree is the list of names that leads to it from the top, links not followed.

* `FileTree.at?` — what is at a place.
* `FileTree.put`, `FileTree.erase` — change one place and no other.

Paths, which may lead through links, are the matter of `FileTree.locate`.
-/

namespace Checkup

/-- What may be at a place of a file system. -/
inductive FileTree where
  /-- a regular file -/
  | file (content : ByteArray)
  /-- a directory; names are distinct -/
  | directory (entries : List (String × FileTree))
  /-- a symbolic link -/
  | link (target : String)
  deriving Inhabited

namespace FileTree

/-- A directory without entries. -/
def empty : FileTree := .directory []

/-- Whether it is a directory. -/
def isDirectory : FileTree → Bool
  | .directory _ => true
  | _ => false

/-- Whether it is a regular file. -/
def isFile : FileTree → Bool
  | .file _ => true
  | _ => false

/-- The entries of a directory; there are none below anything else. -/
def entries : FileTree → List (String × FileTree)
  | .directory entries => entries
  | _ => []

/-- The entry of a directory with a name. -/
def child? (t : FileTree) (name : String) : Option FileTree :=
  OrderedMap.lookup? name t.entries

/-- What is at a place. -/
def at? (t : FileTree) : List String → Option FileTree
  | [] => some t
  | name :: rest => (t.child? name).bind (·.at? rest)

/-- Puts `new` at a place. Its directory has to be there; otherwise nothing changes. -/
def put (new : FileTree) : List String → FileTree → FileTree
  | [], _ => new
  | name :: rest, .directory entries =>
    match OrderedMap.lookup? name entries with
    | some child => .directory (OrderedMap.store name (put new rest child) entries)
    | none => if rest.isEmpty then .directory (OrderedMap.store name new entries)
              else .directory entries
  | _ :: _, t => t

/-- Removes what is at a place, if anything is. -/
def erase : List String → FileTree → FileTree
  | [name], .directory entries => .directory (entries.filter (·.1 ≠ name))
  | name :: rest, .directory entries =>
    match OrderedMap.lookup? name entries with
    | some child => .directory (OrderedMap.store name (erase rest child) entries)
    | none => .directory entries
  | _, t => t

end FileTree

end Checkup
