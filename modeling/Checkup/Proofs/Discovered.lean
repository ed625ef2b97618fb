import Checkup.Discovery
import Checkup.Proofs.Entries
import Checkup.Proofs.Maps
import Checkup.Proofs.Stamps
import Mathlib.Data.List.Lex
import Mathlib.Data.String.Basic

/-!
# What is discovered

A search looks into directories and leaves some of them out on the way. What it finds is
described without it, by the places of a tree:

* `Discovery.Hidden`, `Discovery.Skipped`, `Discovery.Python` — what the name of an entry says.
* `Discovery.Holds` — a regular Python file at a place, with nothing on the way to it that a
  search leaves out.
* `Discovery.containsPython_iff` — a search in a directory succeeds just if there is such a
  place.
* `Discovery.discovered_exactly` — the sources of a workspace: which ones, in which order and
  with which settings.

Names are sorted as their bytes are (`Text.lt_iff_bytes`).
-/

namespace Checkup

/-! ## Texts in the order of their bytes -/

namespace Text

/-- The bytes of a text, in UTF-8. -/
def bytes (text : String) : List UInt8 := text.toUTF8.data.toList

theorem bytes_eq (text : String) : bytes text = text.toList.flatMap String.utf8EncodeChar := by
  rw [bytes, String.toUTF8, ← String.utf8Encode_toList, List.utf8Encode, List.data_toByteArray]

/-- A character before another one has bytes before those of the other one, whatever follows. -/
theorem encode_lt {c d : Char} (h : c < d) (xs ys : List UInt8) :
    String.utf8EncodeChar c ++ xs < String.utf8EncodeChar d ++ ys := by
  have hcd : c.val.toNat < d.val.toNat := h
  have hd : d.val.toNat < 0x110000 := by
    rcases d.valid with h | h <;> simp only [UInt32.toNat] at * <;> omega
  generalize hv : c.val.toNat = v at *
  generalize hw : d.val.toNat = w at *
  have hlt (a b : Nat) : UInt8.ofNat a < UInt8.ofNat b ↔ a % 256 < b % 256 := by
    simp [UInt8.lt_iff_toNat_lt]
  have heq (a b : Nat) : UInt8.ofNat a = UInt8.ofNat b ↔ a % 256 = b % 256 := by
    simp [← UInt8.toNat_inj]
  have hfirst (a : Nat) : (a % 8 + 240) % 256 = a % 8 + 240 := Nat.mod_eq_of_lt (by omega)
  have hnext (a : Nat) : (a % 64 + 128) % 256 = a % 64 + 128 := Nat.mod_eq_of_lt (by omega)
  -- the bytes of a character are the digits of its number to the base 64
  have hdigits : v / 262144 < w / 262144 ∨ v / 262144 = w / 262144 ∧
      (v / 4096 < w / 4096 ∨ v / 4096 = w / 4096 ∧
        (v / 64 < w / 64 ∨ v / 64 = w / 64 ∧ v % 64 < w % 64)) := by
    omega
  simp only [String.utf8EncodeChar, hv, hw]
  split_ifs <;>
    simp only [List.cons_append, List.cons_lt_cons_iff, hlt, heq, hfirst, hnext] <;>
    rcases hdigits with h | ⟨h, h | ⟨h, h | h⟩⟩ <;> omega

theorem flatMap_encode_lt {xs ys : List Char} (h : xs < ys) :
    xs.flatMap String.utf8EncodeChar < ys.flatMap String.utf8EncodeChar := by
  rw [← List.lex_lt] at h
  induction h with
  | @nil c cs =>
    obtain ⟨b, bs, hb⟩ := List.exists_cons_of_ne_nil (String.utf8EncodeChar_ne_nil (c := c))
    simp [hb]
  | rel h => exact encode_lt h _ _
  | cons _ ih => exact List.append_left_lt ih

/-- **Texts are in order just if their bytes are.** -/
theorem lt_iff_bytes {a b : String} : a < b ↔ bytes a < bytes b := by
  have hmono {a b : String} (h : a < b) : bytes a < bytes b := by
    rw [bytes_eq, bytes_eq]
    exact flatMap_encode_lt (String.lt_iff.mp h)
  refine ⟨hmono, fun h => ?_⟩
  rcases lt_trichotomy a b with hab | rfl | hba
  · exact hab
  · exact absurd h (List.lt_irrefl _)
  · exact absurd h (List.lt_asymm (hmono hba))

end Text

/-! ## Trees below directories -/

/-- What holds of a directory whenever it holds of its entries holds of every tree. -/
@[elab_as_elim]
theorem FileTree.induction_on_entries {P : FileTree → Prop} (t : FileTree)
    (file : ∀ content, P (.file content)) (link : ∀ target, P (.link target))
    (directory : ∀ entries, (∀ entry ∈ entries, P entry.2) → P (.directory entries)) : P t := by
  refine @FileTree.rec P (fun entries => ∀ entry ∈ entries, P entry.2) (fun entry => P entry.2)
    file directory link nofun ?_ (fun _ _ h => h) t
  intro entry entries hentry hentries other hother
  rcases List.mem_cons.mp hother with rfl | hother
  · exact hentry
  · exact hentries other hother

namespace Discovery

/-! ## Names -/

/-- The names of hidden entries start with a dot. -/
def Hidden (name : String) : Prop := ∃ rest, name = "." ++ rest

/-- Directories of these names are not looked into. -/
def Skipped (name : String) : Prop :=
  name ∈ ignoredDirectories ∨ ∃ stem, name = stem ++ ".egg-info"

/-- The names of Python files have something before their extension. -/
def Python (name : String) : Prop := ∃ stem, stem ≠ "" ∧ name = stem ++ ".py"

theorem isHidden_iff {name : String} : isHidden name = true ↔ Hidden name := by
  rw [isHidden, decide_eq_true_iff]
  constructor
  · intro h
    obtain ⟨rest, hrest⟩ := List.head?_eq_some_iff.mp h
    exact ⟨String.ofList rest, String.toList_inj.mp (by simp [hrest])⟩
  · rintro ⟨rest, rfl⟩
    simp

theorem isIgnoredDirectory_iff {name : String} :
    isIgnoredDirectory name = true ↔ Skipped name := by
  rw [isIgnoredDirectory, Bool.or_eq_true, List.contains_iff_mem, List.isSuffixOf_iff_suffix]
  refine or_congr Iff.rfl ⟨?_, ?_⟩
  · rintro ⟨stem, hstem⟩
    exact ⟨String.ofList stem, String.toList_inj.mp (by simp [← hstem])⟩
  · rintro ⟨stem, rfl⟩
    exact ⟨stem.toList, by simp⟩

theorem isPythonName_iff {name : String} : isPythonName name = true ↔ Python name := by
  rw [isPythonName, decide_eq_true_iff]
  constructor
  · intro h
    obtain ⟨-, hstem, -, hname⟩ := Path.splitExtension_eq_iff.mp (Prod.ext rfl h)
    exact ⟨_, hstem, hname.trans (String.append_assoc ..)⟩
  · rintro ⟨stem, hstem, rfl⟩
    have hdots : stem ++ ".py" ≠ ".." := by
      intro h
      simpa using congrArg (·.toList.getLast?) h
    have hname : stem ++ ".py" = stem ++ "." ++ "py" := by
      rw [String.append_assoc]
      rfl
    rw [Path.splitExtension_eq_iff.mpr ⟨hdots, hstem, by decide, hname⟩]

theorem isIgnored_eq_false_iff {name : String} {node : FileTree} :
    isIgnored name node = false ↔
      ¬Hidden name ∧ (node.isDirectory = true → ¬Skipped name) := by
  rw [← isHidden_iff, ← isIgnoredDirectory_iff, isIgnored]
  cases isHidden name <;> cases node.isDirectory <;> simp

/-! ## Searching directories -/

/-- A regular Python file `name` in the directory at a place below `node`. No name on the way to
it is hidden, and no directory on the way is skipped. -/
structure Holds (node : FileTree) (place : List String) (name : String) : Prop where
  /-- it is a regular file -/
  file : ∃ content, node.at? (place ++ [name]) = some (.file content)
  /-- its name is that of a Python file -/
  python : Python name
  /-- neither the file nor a directory on the way is hidden -/
  visible : ∀ other ∈ place ++ [name], ¬Hidden other
  /-- no directory on the way is skipped -/
  searched : ∀ directory ∈ place, ¬Skipped directory

variable {entries : List (String × FileTree)}

/-- A file in the directory itself. -/
theorem holds_nil {name : String} :
    Holds (.directory entries) [] name ↔
      ∃ content, OrderedMap.lookup? name entries = some (.file content) ∧
        Python name ∧ ¬Hidden name := by
  have hat : (FileTree.directory entries).at? [name] = OrderedMap.lookup? name entries :=
    @FileTree.at?_entry _ [] _ rfl name
  constructor
  · rintro ⟨⟨content, hfile⟩, hpython, hvisible, -⟩
    exact ⟨content, hat.symm.trans hfile, hpython, hvisible name List.mem_cons_self⟩
  · rintro ⟨content, hfile, hpython, hvisible⟩
    exact ⟨⟨content, hat.trans hfile⟩, hpython, by simpa using hvisible, nofun⟩

/-- A file further below is one below a directory that is an entry. -/
theorem holds_cons {directory name : String} {place : List String} :
    Holds (.directory entries) (directory :: place) name ↔
      ∃ node, OrderedMap.lookup? directory entries = some node ∧
        ¬Hidden directory ∧ ¬Skipped directory ∧ Holds node place name := by
  constructor
  · rintro ⟨⟨content, hfile⟩, hpython, hvisible, hsearched⟩
    rw [List.cons_append, FileTree.at?_cons, Option.bind_eq_some_iff] at hfile
    obtain ⟨node, hnode, hfile⟩ := hfile
    rw [List.cons_append, List.forall_mem_cons] at hvisible
    rw [List.forall_mem_cons] at hsearched
    exact ⟨node, hnode, hvisible.1, hsearched.1, ⟨content, hfile⟩, hpython, hvisible.2,
      hsearched.2⟩
  · rintro ⟨node, hnode, hhidden, hskipped, ⟨content, hfile⟩, hpython, hvisible, hsearched⟩
    refine ⟨⟨content, ?_⟩, hpython, ?_, ?_⟩
    · rw [List.cons_append, FileTree.at?_cons, hnode, Option.bind_some, hfile]
    · rw [List.cons_append]
      exact List.forall_mem_cons.mpr ⟨hhidden, hvisible⟩
    · exact List.forall_mem_cons.mpr ⟨hskipped, hsearched⟩

/-- Files are held by directories only. -/
theorem Holds.isDirectory {node : FileTree} {place : List String} {name : String}
    (h : Holds node place name) : node.isDirectory = true := by
  obtain ⟨content, hfile⟩ := h.file
  cases node with
  | directory entries => rfl
  | file _ | link _ =>
    cases place <;>
      simp [FileTree.at?, FileTree.child?, FileTree.entries, OrderedMap.lookup?] at hfile

/-- What a search among entries comes to. -/
theorem anyPython_iff :
    anyPython entries = true ↔
      ∃ entry ∈ entries, isIgnored entry.1 entry.2 = false ∧
        (entry.2.isFile = true ∧ Python entry.1 ∨ containsPython entry.2 = true) := by
  induction entries with
  | nil => exact ⟨nofun, nofun⟩
  | cons entry rest ih =>
    obtain ⟨name, node⟩ := entry
    rw [anyPython, Bool.or_eq_true, ih, List.exists_mem_cons_iff]
    simp only [Bool.and_eq_true, Bool.not_eq_true', Bool.or_eq_true, isPythonName_iff]

/-- **A search in a directory succeeds just if there is something to find**: a regular Python
file at some place, with nothing on the way that is hidden or skipped. -/
theorem containsPython_iff {node : FileTree} (hvalid : node.Valid) :
    containsPython node = true ↔ ∃ place name, Holds node place name := by
  induction node using FileTree.induction_on_entries with
  | file _ | link _ =>
    refine ⟨nofun, fun ⟨place, name, hholds⟩ => ?_⟩
    cases hholds.isDirectory
  | directory entries ih =>
    obtain ⟨hnames, hbelow⟩ := FileTree.valid_directory_iff.mp hvalid
    rw [containsPython, anyPython_iff]
    constructor
    · rintro ⟨⟨name, node⟩, hentry, hignored, hfound⟩
      obtain ⟨hhidden, hskipped⟩ := isIgnored_eq_false_iff.mp hignored
      have hnode : OrderedMap.lookup? name entries = some node :=
        OrderedMap.lookup?_eq_some_of_mem hnames.nodup hentry
      rcases hfound with ⟨hfile, hpython⟩ | hfound
      · cases node with
        | file content => exact ⟨[], name, holds_nil.mpr ⟨content, hnode, hpython, hhidden⟩⟩
        | directory _ | link _ => cases hfile
      · obtain ⟨place, file, hholds⟩ := (ih _ hentry (hbelow name node hnode)).mp hfound
        have hdirectory := hskipped hholds.isDirectory
        exact ⟨name :: place, file, holds_cons.mpr ⟨node, hnode, hhidden, hdirectory, hholds⟩⟩
    · rintro ⟨_ | ⟨directory, place⟩, name, hholds⟩
      · obtain ⟨content, hnode, hpython, hhidden⟩ := holds_nil.mp hholds
        refine ⟨(name, .file content), OrderedMap.mem_of_lookup?_eq_some hnode, ?_,
          .inl ⟨rfl, hpython⟩⟩
        exact isIgnored_eq_false_iff.mpr ⟨hhidden, nofun⟩
      · obtain ⟨node, hnode, hhidden, hskipped, hholds⟩ := holds_cons.mp hholds
        have hentry := OrderedMap.mem_of_lookup?_eq_some hnode
        refine ⟨(directory, node), hentry, ?_, .inr ?_⟩
        · exact isIgnored_eq_false_iff.mpr ⟨hhidden, fun _ => hskipped⟩
        · exact (ih _ hentry (hbelow directory node hnode)).mpr ⟨place, name, hholds⟩

/-! ## The top level -/

/-- **What is a source** among the entries of a workspace. -/
inductive IsSource (name : String) (node : FileTree) : Prop
  /-- what is no directory, be it a link, counts by its name -/
  | entry (kind : node.isDirectory = false) (visible : ¬Hidden name) (python : Python name)
  /-- a directory counts by what it holds -/
  | directory (kind : node.isDirectory = true) (visible : ¬Hidden name)
      (searched : ¬Skipped name) {place : List String} {file : String}
      (holds : Holds node place file)

theorem isSource_iff {name : String} {node : FileTree} (hvalid : node.Valid) :
    isSource name node = true ↔ IsSource name node := by
  rw [isSource, Bool.and_eq_true, Bool.not_eq_true', isIgnored_eq_false_iff]
  constructor
  · rintro ⟨⟨hvisible, hskipped⟩, hsource⟩
    cases hkind : node.isDirectory with
    | false =>
      rw [hkind, if_neg Bool.false_ne_true] at hsource
      exact .entry hkind hvisible (isPythonName_iff.mp hsource)
    | true =>
      rw [hkind, if_pos rfl] at hsource
      obtain ⟨place, file, hholds⟩ := (containsPython_iff hvalid).mp hsource
      exact .directory hkind hvisible (hskipped hkind) hholds
  · rintro (⟨hkind, hvisible, hpython⟩ | ⟨hkind, hvisible, hsearched, hholds⟩)
    · rw [hkind, if_neg Bool.false_ne_true]
      exact ⟨⟨hvisible, nofun⟩, isPythonName_iff.mpr hpython⟩
    · rw [hkind, if_pos rfl]
      exact ⟨⟨hvisible, fun _ => hsearched⟩, (containsPython_iff hvalid).mpr ⟨_, _, hholds⟩⟩

theorem mem_sourceNames {name : String} :
    name ∈ sourceNames entries ↔ ∃ node, (name, node) ∈ entries ∧ isSource name node = true := by
  simp [sourceNames, List.mem_mergeSort]

/-- The names of sources are distinct and sorted. -/
theorem sourceNames_sorted (hnames : (entries.map Prod.fst).Nodup) :
    (sourceNames entries).Pairwise (· < ·) := by
  have hnodup : (sourceNames entries).Nodup := by
    apply (List.mergeSort_perm _ _).nodup_iff.mpr
    exact hnames.sublist (List.filter_sublist.map _)
  have hsorted : (sourceNames entries).Pairwise (· ≤ ·) := by
    apply (List.pairwise_mergeSort ?_ ?_ _).imp of_decide_eq_true
    · intro a b c hab hbc
      exact decide_eq_true ((of_decide_eq_true hab).trans (of_decide_eq_true hbc))
    · intro a b
      simpa using le_total a b
  exact (hsorted.and hnodup).imp fun ⟨hle, hne⟩ => lt_of_le_of_ne hle hne

/-- The sources of a listed directory are its source names, each with its contexts. -/
theorem sources_of_list? {files : FileTree} {workspace : String}
    (hlist : files.list? workspace = some entries) :
    sources files workspace = some (OrderedMap.ofList <| (sourceNames entries).map fun name =>
      (name, { contexts := contextsFor name })) := by
  rw [sources, FileTree.get?_of_list? hlist]
  rfl

/-- If names are distinct, they are its source names one by one. -/
theorem entries_sources {files : FileTree} {workspace : String}
    (hlist : files.list? workspace = some entries) (hnames : (entries.map Prod.fst).Nodup) :
    ∃ found, sources files workspace = some found ∧
      found.entries = (sourceNames entries).map fun name =>
        (name, { contexts := contextsFor name }) := by
  refine ⟨_, sources_of_list? hlist, OrderedMap.entries_ofList ?_⟩
  rw [List.map_map]
  exact (List.map_id' _).symm ▸ (sourceNames_sorted hnames).imp ne_of_lt

theorem contextsFor_eq (name : String) :
    contextsFor name = if name = "test" ∨ name = "tests" then ["test"]
      else if name = "setup.py" then ["fast"] else [] := by
  simp [contextsFor]

/-- **What is discovered** in a workspace: precisely its sources, each once, sorted by the bytes
of their names. Tests are checked as tests and the setup script fast; there are no lists. The
workspace is one of the tree; links in it count by their names, and are not followed. -/
theorem discovered_exactly {files : FileTree} {workspace : String} (hvalid : files.Valid)
    (hlist : files.list? workspace = some entries) :
    ∃ found, sources files workspace = some found ∧
      (found.keys.Pairwise fun a b => Text.bytes a < Text.bytes b) ∧
      ∀ name settings, found.get? name = some settings ↔
        (∃ node, (name, node) ∈ entries ∧ IsSource name node) ∧
        settings = {
          contexts := if name = "test" ∨ name = "tests" then ["test"]
            else if name = "setup.py" then ["fast"] else []
          allow := []
          deny := [] } := by
  obtain ⟨hnames, hbelow⟩ := FileTree.valid_directory_iff.mp (hvalid.of_list? hlist)
  obtain ⟨found, hfound, hentries⟩ := entries_sources hlist hnames.nodup
  have hkeys : found.keys = sourceNames entries := by
    rw [OrderedMap.keys, hentries, List.map_map]
    exact List.map_id' _
  refine ⟨found, hfound, ?_, fun name settings => ?_⟩
  · rw [hkeys]
    exact (sourceNames_sorted hnames.nodup).imp Text.lt_iff_bytes.mp
  · have hsource (node : FileTree) (hentry : (name, node) ∈ entries) :
        isSource name node = true ↔ IsSource name node :=
      isSource_iff (hbelow name node (OrderedMap.lookup?_eq_some_of_mem hnames.nodup hentry))
    rw [OrderedMap.get?_eq_some_iff, hentries, List.mem_map]
    constructor
    · rintro ⟨name, hname, hpair⟩
      cases hpair
      obtain ⟨node, hentry, hnode⟩ := mem_sourceNames.mp hname
      exact ⟨⟨node, hentry, (hsource node hentry).mp hnode⟩, by rw [contextsFor_eq]⟩
    · rintro ⟨⟨node, hentry, hnode⟩, rfl⟩
      exact ⟨name, mem_sourceNames.mpr ⟨node, hentry, (hsource node hentry).mpr hnode⟩,
        by rw [contextsFor_eq]⟩

/-- A project with a file far below its tests, a link that is named like the setup script, and
Python files that do not count: below a skipped directory, below a hidden one, and in a package. -/
def project : List (String × FileTree) := [
  ("tests", .directory [("unit", .directory [("test_a.py", .file .empty)])]),
  ("setup.py", .link "elsewhere"),
  ("docs", .directory [
    ("venv", .directory [("site.py", .file .empty)]),
    (".cache", .directory [("page.py", .file .empty)])]),
  ("docs.egg-info", .directory [("top.py", .file .empty)])]

theorem valid_of_mem_project : ∀ entry ∈ project, entry.2.Valid := by
  have hleaf (node : FileTree) (h : node.entries = []) : node.Valid :=
    FileTree.valid_of_entries_eq_nil h
  have hone (name : String) (node : FileTree) (hname : '/' ∉ name.toList) (h : node.Valid) :
      (FileTree.directory [(name, node)]).Valid :=
    FileTree.valid_of_entries ⟨List.nodup_singleton _, by simpa using hname⟩ (by simpa using h)
  have hfile (name : String) (hname : '/' ∉ name.toList) :
      (FileTree.directory [(name, .file .empty)]).Valid := hone name _ hname (hleaf _ rfl)
  simp only [project, List.forall_mem_cons]
  refine ⟨hone "unit" _ (by decide) (hfile "test_a.py" (by decide)), hleaf _ rfl, ?_,
    hfile "top.py" (by decide), nofun⟩
  refine FileTree.valid_of_entries ⟨by decide, by decide⟩ ?_
  simp only [List.forall_mem_cons]
  exact ⟨hfile "site.py" (by decide), hfile "page.py" (by decide), nofun⟩

theorem valid_project : (FileTree.directory project).Valid :=
  FileTree.valid_of_entries ⟨by decide, by decide⟩ valid_of_mem_project

/-- Of the project, the tests and the link are discovered. -/
theorem discovered_exactly_project :
    (FileTree.directory project).Valid ∧
    (FileTree.directory project).list? "." = some project ∧
    ∃ found, sources (.directory project) "." = some found ∧
      found.get? "tests" = some { contexts := ["test"] } ∧
      found.get? "setup.py" = some { contexts := ["fast"] } ∧
      found.get? "docs" = none ∧ found.get? "docs.egg-info" = none := by
  have hlist := FileTree.list?_dot project
  obtain ⟨found, hfound, -, hget⟩ := discovered_exactly valid_project hlist
  have hsources : ∀ entry ∈ project,
      (IsSource entry.1 entry.2 ↔ entry.1 = "tests" ∨ entry.1 = "setup.py") := by
    have hsearch : ∀ entry ∈ project,
        (isSource entry.1 entry.2 = true ↔ entry.1 = "tests" ∨ entry.1 = "setup.py") := by
      decide +kernel
    intro entry hentry
    rw [← isSource_iff (valid_of_mem_project entry hentry), hsearch entry hentry]
  have hnone (name : String) (hname : ¬(name = "tests" ∨ name = "setup.py")) :
      found.get? name = none := by
    refine Option.eq_none_iff_forall_ne_some.mpr fun settings hsettings => ?_
    obtain ⟨⟨node, hentry, hnode⟩, -⟩ := (hget name settings).mp hsettings
    exact hname ((hsources _ hentry).mp hnode)
  refine ⟨valid_project, hlist, found, hfound, (hget _ _).mpr ⟨⟨_, .head _, ?_⟩, rfl⟩,
    (hget _ _).mpr ⟨⟨_, .tail _ (.head _), ?_⟩, rfl⟩, hnone _ (by decide), hnone _ (by decide)⟩
  · exact (hsources _ (.head _)).mpr (.inl rfl)
  · exact (hsources _ (.tail _ (.head _))).mpr (.inr rfl)

end Discovery

end Checkup
