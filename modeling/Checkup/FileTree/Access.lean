import Checkup.FileTree.Locate

/-!
# Reading and changing file trees

What programs ask of a file system, by path. A change that is refused has no
result. Paths are those of `FileTree.locate`: nothing is there at one that leaves
the tree, and every change there is refused.

* `FileTree.exists?`, `FileTree.read?`, `FileTree.readText?`, `FileTree.list?`
* `FileTree.write?`, `FileTree.touch?`, `FileTree.remove?`,
  `FileTree.makeDirectories?`
* `FileTree.ofList` — the tree with the given contents.
-/

namespace Checkup.FileTree

/-! ## Reading -/

/-- What a path leads to. -/
def get? (root : FileTree) (path : String) : Option FileTree :=
  match root.locate path with
  | some (.present _ node) => some node
  | _ => none

/-- Whether a path leads to anything. -/
def hasPath (root : FileTree) (path : String) : Bool := (root.get? path).isSome

/-- Whether a path leads to a directory. -/
def hasDirectory (root : FileTree) (path : String) : Bool := (root.get? path).any isDirectory

/-- Whether a path leads to a regular file. -/
def hasFile (root : FileTree) (path : String) : Bool := (root.get? path).any isFile

/-- The content of a file. -/
def read? (root : FileTree) (path : String) : Option ByteArray :=
  match root.get? path with
  | some (.file content) => some content
  | _ => none

/-- A file that can be read is there. -/
theorem hasPath_of_read? {root : FileTree} {path : String} {content : ByteArray}
    (h : root.read? path = some content) : root.hasPath path = true := by
  rw [read?] at h
  rw [hasPath]
  cases hget : root.get? path with
  | none => simp [hget] at h
  | some node => rfl

/-- The content of a file, if it is text. -/
def readText? (root : FileTree) (path : String) : Option String :=
  (root.read? path).bind String.fromUTF8?

/-- What is written of a text is that text. -/
theorem readText?_of_read? {root : FileTree} {path text : String}
    (h : root.read? path = some text.toUTF8) : root.readText? path = some text := by
  rw [readText?, h]
  exact dif_pos text.isValidUTF8

/-- The entries of a directory, in no order that counts. -/
def list? (root : FileTree) (path : String) : Option (List (String × FileTree)) :=
  match root.get? path with
  | some (.directory entries) => some entries
  | _ => none

/-! ## Changing -/

/-- Gives a file a new content. The file is made if its directory is there. -/
def write? (root : FileTree) (path : String) (content : ByteArray) : Option FileTree :=
  match root.locate path with
  | some (.present place (.file _)) => some (put (.file content) place root)
  | some (.free parent name) => some (put (.file content) (parent ++ [name]) root)
  | _ => none

/-- Opens a file to add to it. The file is made if its directory is there. -/
def touch? (root : FileTree) (path : String) : Option FileTree :=
  match root.locate path with
  | some (.present _ (.file _)) => some root
  | some (.free parent name) => some (put (.file .empty) (parent ++ [name]) root)
  | _ => none

/-- Removes a file or a link; a link's target stays. -/
def remove? (root : FileTree) (path : String) : Option FileTree := do
  let (parent, name) ← root.locateEntry path
  match root.at? (parent ++ [name]) with
  | some (.file _) => some (erase (parent ++ [name]) root)
  | some (.link _) => some (erase (parent ++ [name]) root)
  | _ => none

/-- Makes one directory, unless names lead to one already. Its parent has to be there. -/
def makeDirectory? (root : FileTree) (before : List String) (name : String) : Option FileTree :=
  match root.follow linkLimit [] (before ++ [name]) with
  | some (.present _ (.directory _)) => some root
  | some (.present ..) => none
  | _ =>
    match root.follow linkLimit [] before with
    | some (.present parent (.directory entries)) =>
      if (OrderedMap.lookup? name entries).isSome then none
      else some (put .empty (parent ++ [name]) root)
    | _ => none

/-- Makes the directories along names, one after the other. -/
def makeDirectoriesAlong (before : List String) : List String → FileTree → Option FileTree
  | [], root => some root
  | name :: rest, root =>
    (root.makeDirectory? before name).bind (makeDirectoriesAlong (before ++ [name]) rest)

/-- Makes a directory and those that lead to it, as far as they are not there. This is refused for
an absolute path, and for one that leaves the tree by double dots or by a link with an absolute
target, though a file system would make directories there. -/
def makeDirectories? (root : FileTree) (path : String) : Option FileTree :=
  if path = "" then some root
  else if Path.isAbsolute path then none
  else makeDirectoriesAlong [] (Path.names path) root

/-! ## Building -/

/-- Makes a path lead to a node, with the directories before it. What is refused is left out. -/
def plant (root : FileTree) (path : String) (node : FileTree) : FileTree :=
  let root := ((Path.parent? path).bind root.makeDirectories?).getD root
  match node with
  | .file content => (root.write? path content).getD root
  | .directory _ => (root.makeDirectories? path).getD root
  | .link _ =>
    match root.locateEntry path with
    | some (parent, name) => put node (parent ++ [name]) root
    | none => root

/-- The tree with the given contents by path. -/
def ofList (contents : List (String × FileTree)) : FileTree :=
  contents.foldl (fun root (path, node) => root.plant path node) empty

end Checkup.FileTree
