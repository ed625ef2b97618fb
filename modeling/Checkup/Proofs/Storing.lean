import Checkup.Proofs.Dots
import Checkup.Proofs.Evaluations
import Checkup.Proofs.Saving

/-!
# Evaluations are loaded as they were stored

* `History.store_eq_ok_iff` — what storing does: it makes directories and writes the file.
* `History.exists_store` — a directory that is there can be stored into.
* `History.load_of_store` — what is stored at a path is loaded from there.
* `History.load_store` — what was loaded survives being stored again.
-/

namespace Checkup.History

variable {files files' : FileTree} {path : String} {e : Evaluation}

/-! ## Storing -/

/-- Storing makes the directories that lead to a path, and writes the file. -/
theorem store_eq_ok_iff :
    store files path e = .ok files' ↔
      ∃ made, ((Path.parent? path).map files.makeDirectories?).getD (some files) = some made ∧
        made.write? path e.toText.toUTF8 = some files' := by
  rw [store]
  cases ((Path.parent? path).map files.makeDirectories?).getD (some files) with
  | none => exact ⟨nofun, nofun⟩
  | some made =>
    simp only [Option.some.injEq, exists_eq_left']
    cases made.write? path e.toText.toUTF8 with
    | none => exact ⟨nofun, nofun⟩
    | some written =>
      rw [Option.some.injEq]
      exact ⟨Except.ok.inj, congrArg Except.ok⟩

/-- In a directory that is there, a free name and a file can be stored to. -/
theorem exists_store {dir name : String} {entries : List (String × FileTree)} (e : Evaluation)
    (hlist : files.list? dir = some entries) (hlast : dir.toList.getLast? ≠ some '/')
    (hname : Path.IsName name)
    (hfile : ∀ node, OrderedMap.lookup? name entries = some node → node.isFile = true) :
    ∃ files', store files (Path.join dir name) e = .ok files' := by
  obtain ⟨hne, -⟩ := FileTree.list?_eq_some_iff.mp hlist
  have hmade := FileTree.makeDirectories?_parent hne hlast hname
    (FileTree.makeDirectories?_of_list? hlist)
  obtain ⟨files', hwrite, -⟩ := FileTree.write?_join e.toText.toUTF8 hlist hlast hname hfile
  exact ⟨files', store_eq_ok_iff.mpr ⟨files, hmade, hwrite⟩⟩

/-! ## Loading -/

/-- A file that holds the text of an evaluation gives that evaluation. -/
theorem load_of_read? (hread : files.read? path = some e.toText.toUTF8) :
    load files path = .ok e := by
  rw [load, FileTree.readText?_of_read? hread]
  simp only [Evaluation.ofText?_toText]

/-- What is stored at a path is there as its text, and is loaded from there. -/
theorem load_of_store (hs : store files path e = .ok files') :
    files'.read? path = some e.toText.toUTF8 ∧ load files' path = .ok e := by
  obtain ⟨made, -, hwrite⟩ := store_eq_ok_iff.mp hs
  have hread := FileTree.read?_of_write? hwrite
  exact ⟨hread, load_of_read? hread⟩

/-- **An evaluation is loaded as it was stored**, whatever its texts, exit statuses and the
order of its sources, and whatever the tree and the path. (To a path that leaves the tree, such as
an absolute one, nothing is stored here; see `FileTree.locate`.)

* What is stored at a path is loaded from there.
* What is loaded from any file survives being stored, and what is loaded then is stored as the
  same bytes.
* A free name and a file can be stored to, in a directory that is there. -/
theorem load_store :
    (∀ (files stored : FileTree) (path : String) (e : Evaluation),
      store files path e = .ok stored → load stored path = .ok e) ∧
    (∀ (source : FileTree) (origin : String) (e : Evaluation), load source origin = .ok e →
      ∀ (files stored : FileTree) (path : String), store files path e = .ok stored →
        load stored path = .ok e ∧
        ∀ (again : Evaluation) (files' stored' : FileTree) (path' : String),
          load stored path = .ok again → store files' path' again = .ok stored' →
            ∃ bytes, stored.read? path = some bytes ∧ stored'.read? path' = some bytes) ∧
    ∀ (files : FileTree) (dir name : String) (entries : List (String × FileTree))
      (e : Evaluation), files.list? dir = some entries → dir.toList.getLast? ≠ some '/' →
        Path.IsName name →
        (∀ node, OrderedMap.lookup? name entries = some node → node.isFile = true) →
          ∃ stored, store files (Path.join dir name) e = .ok stored := by
  refine ⟨fun _ _ _ _ hs => (load_of_store hs).2, ?_, fun _ _ _ _ e => exists_store e⟩
  intro _ _ e _ files stored path hs
  obtain ⟨hread, hload⟩ := load_of_store hs
  refine ⟨hload, fun again files' stored' path' hagain hs' => ?_⟩
  obtain rfl : e = again := Except.ok.inj (hload.symm.trans hagain)
  exact ⟨_, hread, (load_of_store hs').1⟩

/-- A command with controls and quotes in its texts, and the least exit status. -/
def awkwardCommand : CommandEvaluation where
  command := "\x1f\"\\"
  args := ["", "\n😀/"]
  success := false
  exitCode := some Int32.minValue
  output := ["\t\x7f"]

/-- An evaluation of sources that are not sorted; one of them is empty. -/
def awkward : Evaluation := OrderedMap.ofList [
  ("z\x00", [awkwardCommand, awkwardCommand]),
  ("", []),
  ("a", [{ command := "", success := true }])]

/-- It takes the place of a stored evaluation, and is loaded from there. -/
theorem load_store_awkward : ∃ stored,
    store shelf (Path.join (ofWorkspace "." 1).directory "evaluation-50.json") awkward =
      .ok stored ∧
    load stored (Path.join (ofWorkspace "." 1).directory "evaluation-50.json") = .ok awkward := by
  have hname : Path.IsName "evaluation-50.json" := isName_nameOf 50
  have hfile : ∀ node, OrderedMap.lookup? "evaluation-50.json"
      [("evaluation-50.json", FileTree.file .empty)] = some node → node.isFile = true := by
    rintro node ⟨⟩
    rfl
  obtain ⟨hload, -, hstore⟩ := load_store
  obtain ⟨stored, hs⟩ :=
    hstore shelf _ _ _ awkward list?_shelf (directory_ofWorkspace "." 1).2 hname hfile
  exact ⟨stored, hs, hload _ _ _ _ hs⟩

end Checkup.History
