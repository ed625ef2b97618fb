import Checkup.FileTree
import Checkup.Path

/-!
# Following paths

Where a path leads in a file tree, seen from the top of the tree. Dots stay,
double dots go up, links are followed where they stand, and at most
`linkLimit` of them.

* `Place` — something that is there, or a free name in a directory that is there.
* `FileTree.locate` — the place of a path.

The tree is all there is, and its top is the directory in which a program runs. So three kinds of
paths lead nowhere here that a file system follows out of that directory: absolute paths, double
dots above the top, and paths through a link with an absolute target. What is said of a path that
leads nowhere is said of the tree alone, and not of what the path names elsewhere.
-/

namespace Checkup

/-- Where a path leads. -/
inductive Place where
  /-- to something other than a link -/
  | present (place : List String) (node : FileTree)
  /-- to a free name in a directory -/
  | free (parent : List String) (name : String)

namespace Path

/-- The names along a path, as a file system reads them: repeated slashes do not
count, and a trailing slash asks for a directory. -/
def names (path : String) : List String :=
  match (Text.pieces '/' path.toList).reverse with
  | [] => []
  | last :: before =>
    (before.reverse.filter (· ≠ [])).map String.ofList ++
      [if last = [] then "." else String.ofList last]

end Path

namespace FileTree

/-- The number of links that a path may lead through. -/
def linkLimit : Nat := 40

/-- Where names lead from a directory of the tree; `links` more links may be followed. Double dots
at the top, and a link with an absolute target, lead nowhere: a file system would follow them out of
the tree. -/
def follow (root : FileTree) (links : Nat) (here names : List String) : Option Place :=
  match names with
  | [] => (root.at? here).map (.present here)
  | name :: rest =>
    match root.at? here with
    | some (.directory entries) =>
      if name = "." then root.follow links here rest
      else if name = ".." then
        if here.isEmpty then none else root.follow links here.dropLast rest
      else
        match OrderedMap.lookup? name entries with
        | some (.link target) =>
          match links with
          | 0 => none
          | links + 1 =>
            if Path.isAbsolute target then none
            else root.follow links here (Path.names target ++ rest)
        | some _ => root.follow links (here ++ [name]) rest
        | none => if rest.isEmpty then some (.free here name) else none
    | _ => none
termination_by (links, names.length)

/-- Where a path leads from the top of the tree. An absolute path leads nowhere, and so does one
that leaves the tree by double dots or by a link (`follow`), though a file system follows both. -/
def locate (root : FileTree) (path : String) : Option Place :=
  if path = "" || Path.isAbsolute path then none
  else root.follow linkLimit [] (Path.names path)

/-- Where a path leads if its last name is not followed: its directory and that name. Paths that
leave the tree lead nowhere, as they do for `locate`. -/
def locateEntry (root : FileTree) (path : String) : Option (List String × String) := do
  if path = "" || Path.isAbsolute path then none
  let names := Path.names path
  let name ← names.getLast?
  if name = "." || name = ".." then none
  match root.follow linkLimit [] names.dropLast with
  | some (.present parent (.directory _)) => some (parent, name)
  | _ => none

end FileTree

end Checkup
