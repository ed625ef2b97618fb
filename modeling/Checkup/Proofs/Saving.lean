import Checkup.Proofs.Entries
import Checkup.Proofs.Stamps
import Checkup.Proofs.Traversal

/-!
# What a save leaves

A save stores a new file and prunes what is listed beyond the limit, the new file
included:

* `History.list?_of_save` — the entries of the history directory after a save.
* `History.valid_of_save` — a save keeps a tree valid.
* `History.save_keeps_iff` — when the evaluation just saved is still there: just if fewer
  stored ones than the limit are listed before it (`save_after_is_kept`,
  `save_before_is_lost`).
-/

namespace Checkup.History

variable {h : History} {files files' : FileTree} {entries : List (String × FileTree)}

/-! ## The directory -/

theorem getLast?_join (dir : String) {name : String} (hname : Path.IsName name) :
    (Path.join dir name).toList.getLast? = name.toList.getLast? := by
  rcases List.eq_nil_or_concat name.toList with hnil | ⟨init, last, hlast⟩
  · exact absurd (String.toList_eq_nil_iff.mp hnil) hname.ne_empty
  · rw [Path.join, hlast]
    split
    · rw [hlast]
    · split
      · rw [hlast]
      · split <;> simp [hlast, List.getLast?_cons]

/-- The path of the directory of a workspace is not empty and does not end in a slash. -/
theorem directory_ofWorkspace (workspace : String) (size : Nat) :
    (ofWorkspace workspace size).directory ≠ "" ∧
      (ofWorkspace workspace size).directory.toList.getLast? ≠ some '/' := by
  have hname : Path.IsName "evaluations" := ⟨by decide, by decide, by decide, by decide⟩
  have hlast : (ofWorkspace workspace size).directory.toList.getLast? = some 's' :=
    getLast?_join (Path.join workspace ".statue") hname
  refine ⟨fun hempty => ?_, ?_⟩
  · simp [hempty] at hlast
  · rw [hlast]
    decide

/-- What is listed of a directory. -/
theorem list_eq (hlist : files.list? h.directory = some entries) :
    h.list files = .ok ((stampedNames (entries.map Prod.fst)).map h.pathOf) := by
  have hpath : files.hasPath h.directory = true := by
    rw [FileTree.list?] at hlist
    rw [FileTree.hasPath]
    cases hget : files.get? h.directory with
    | none => simp [hget] at hlist
    | some node => rfl
  rw [list, if_pos hpath, hlist]

/-! ## Pruning -/

/-- What is left of a directory after files of some names are removed. -/
def without (names : List String) (entries : List (String × FileTree)) :
    List (String × FileTree) :=
  entries.filter fun e => e.1 ∉ names || e.2.isDirectory

/-- Removing the files of some names, one after the other, leaves the rest. -/
theorem list?_foldl_remove (hlast : h.directory.toList.getLast? ≠ some '/')
    {names : List String} (hnames : ∀ name ∈ names, Path.IsName name) :
    ∀ {files : FileTree} {entries : List (String × FileTree)},
      files.list? h.directory = some entries → FileTree.ProperNames entries →
      (∀ e ∈ entries, e.1 ∈ names → e.2.target? = none) →
      ((names.map h.pathOf).foldl (fun files path => (files.remove? path).getD files)
        files).list? h.directory = some (without names entries) := by
  -- the first name is removed, or stays; the rest are removed from what that leaves
  induction names with
  | nil =>
    intro files entries hlist _ _
    simp [without, hlist]
  | cons name rest ih =>
    intro files entries hlist hproper hlinks
    have hlink : (OrderedMap.lookup? name entries).bind FileTree.target? = none := by
      cases hl : OrderedMap.lookup? name entries with
      | none => rfl
      | some node => exact hlinks _ (OrderedMap.mem_of_lookup?_eq_some hl) List.mem_cons_self
    have hrest : ∀ other ∈ rest, Path.IsName other := fun other hother =>
      hnames other (List.mem_cons_of_mem _ hother)
    have hlookup : ∀ e ∈ entries, e.1 = name → OrderedMap.lookup? name entries = some e.2 := by
      rintro e he rfl
      exact OrderedMap.lookup?_eq_some_of_mem hproper.nodup he
    rw [List.map_cons, List.foldl_cons]
    rcases FileTree.remove?_join hlist hlast (hnames name List.mem_cons_self) hlink with
      ⟨content, removed, hentry, hremove, hremoved⟩ | ⟨hentry, hremove⟩
    · rw [pathOf, hremove, Option.getD_some, ih hrest hremoved (hproper.filter _) fun e he hmem =>
        hlinks e (List.mem_filter.mp he).1 (List.mem_cons_of_mem _ hmem)]
      rw [without, without, List.filter_filter]
      refine congrArg some (List.filter_congr fun e he => ?_)
      -- the entry of this name is the file that was removed
      by_cases hname : e.1 = name
      · have hfile : e.2 = .file content :=
          Option.some.inj ((hlookup e he hname).symm.trans hentry)
        simp [hname, hfile, FileTree.isDirectory]
      · simp [hname]
    · rw [pathOf, hremove, Option.getD_none, ih hrest hlist hproper fun e he hmem =>
        hlinks e he (List.mem_cons_of_mem _ hmem)]
      refine congrArg some (List.filter_congr fun e he => ?_)
      -- the entry of this name is a directory, which stays
      by_cases hname : e.1 = name
      · have htarget := hlinks e he (hname ▸ List.mem_cons_self)
        have hdirectory : e.2.isDirectory = true := by
          cases hkind : e.2 with
          | directory below => rfl
          | file content => exact absurd (hkind ▸ hlookup e he hname) (hentry content)
          | link target => simp [hkind, FileTree.target?] at htarget
        simp [hdirectory]
      · simp [hname]

/-- Pruning removes the files that are listed beyond the limit, and nothing else. -/
theorem prune_eq (hlast : h.directory.toList.getLast? ≠ some '/')
    (hlist : files.list? h.directory = some entries) (hproper : FileTree.ProperNames entries)
    (hlinks : ∀ e ∈ entries, (stamp? e.1).isSome = true → e.2.target? = none) :
    ∃ files', h.prune files = .ok files' ∧
      files'.list? h.directory =
        some (without ((stampedNames (entries.map Prod.fst)).drop h.limit) entries) := by
  have hdropped : ∀ name ∈ (stampedNames (entries.map Prod.fst)).drop h.limit,
      name ∈ entries.map Prod.fst ∧ (stamp? name).isSome = true := fun name hname =>
    mem_stampedNames.mp (List.mem_of_mem_drop hname)
  have hnames : ∀ name ∈ (stampedNames (entries.map Prod.fst)).drop h.limit,
      Path.IsName name := by
    intro name hname
    obtain ⟨hmem, hstamp⟩ := hdropped name hname
    obtain ⟨stamp, hstamp⟩ := Option.isSome_iff_exists.mp hstamp
    exact isName_of_stamp? (hproper.no_slash name hmem) hstamp
  refine ⟨_, ?_, list?_foldl_remove hlast hnames hlist hproper fun e he hmem =>
    hlinks e he (hdropped e.1 hmem).2⟩
  rw [prune, list_eq hlist, List.map_drop]
  rfl

/-! ## Saving -/

/-- The entries of the directory, which is made if it is not there. -/
def stored (h : History) (files : FileTree) : List (String × FileTree) :=
  ((files.makeDirectories? h.directory).bind (·.list? h.directory)).getD []

/-- The entries of the directory with the new file of a save among them. -/
def storedWith (h : History) (files : FileTree) (e : Evaluation) (first : Int) :
    List (String × FileTree) :=
  OrderedMap.store (nameOf (h.freeStamp files first)) (.file e.toText.toUTF8) (h.stored files)

/-- The entries that a save leaves in the directory. -/
def leftBySave (h : History) (files : FileTree) (e : Evaluation) (first : Int) :
    List (String × FileTree) :=
  without ((stampedNames ((h.storedWith files e first).map Prod.fst)).drop h.limit)
    (h.storedWith files e first)

theorem properNames_stored (hvalid : files.Valid) : FileTree.ProperNames (h.stored files) := by
  rw [stored]
  cases hmade : files.makeDirectories? h.directory with
  | none => exact ⟨List.nodup_nil, nofun⟩
  | some made =>
    cases hlist : made.list? h.directory with
    | none => simpa [hlist] using ⟨List.nodup_nil, nofun⟩
    | some entries =>
      obtain ⟨left, place, -, hat⟩ := (FileTree.list?_eq_some_iff.mp hlist).2.2
      simpa [hlist] using hvalid.makeDirectories? hmade place entries hat

/-- What a save that succeeds has done: directories were made, the file was written, and
the rest is pruning. -/
theorem save_eq_ok {e : Evaluation} {first : Int} {path : String}
    (hs : h.save files e first = .ok (path, files')) :
    path = h.pathOf (nameOf (h.freeStamp files first)) ∧
      ∃ made written, files.makeDirectories? h.directory = some made ∧
        made.write? path e.toText.toUTF8 = some written ∧ h.prune written = .ok files' := by
  rw [save] at hs
  cases hmade : files.makeDirectories? h.directory with
  | none => simp [hmade] at hs
  | some made =>
    rw [hmade] at hs
    dsimp only at hs
    cases hwrite : made.write? (h.pathOf (nameOf (h.freeStamp files first))) e.toText.toUTF8 with
    | none =>
      rw [hwrite] at hs
      cases hs
    | some written =>
      rw [hwrite] at hs
      obtain ⟨pruned, hprune, hs⟩ := bind_eq_ok hs
      obtain ⟨hpath, hfiles⟩ := Prod.mk.inj (Except.ok.inj hs)
      exact ⟨hpath.symm, made, written, rfl, hpath ▸ hwrite, hfiles ▸ hprune⟩

theorem isName_nameOf (stamp : Int) : Path.IsName (nameOf stamp) := by
  have hprefix : (nameOf stamp).toList =
      namePrefix.toList ++ (toString stamp ++ "." ++ nameExtension).toList := by
    simp [nameOf]
  obtain ⟨hempty, hdot, hdots⟩ := ne_dots_of_prefix hprefix
  exact ⟨hdot, hdots, hempty, no_slash_nameOf stamp⟩

/-- **The directory after a save**: the new file is stored at its name, and what is then
listed beyond the limit is removed. -/
theorem list?_of_save {e : Evaluation} {first : Int} {path : String}
    (hne : h.directory ≠ "") (hlast : h.directory.toList.getLast? ≠ some '/')
    (hvalid : files.Valid)
    (hlinks : ∀ entry ∈ h.stored files, (stamp? entry.1).isSome = true → entry.2.target? = none)
    (hstamp : Text.fitsSigned64 (h.freeStamp files first) = true)
    (hs : h.save files e first = .ok (path, files')) :
    files'.list? h.directory = some (h.leftBySave files e first) := by
  obtain ⟨hpath, made, written, hmade, hwrite, hprune⟩ := save_eq_ok hs
  rw [hpath, pathOf] at hwrite
  have hname := isName_nameOf (h.freeStamp files first)
  have hproper := properNames_stored (h := h) hvalid
  have hrel : Path.isAbsolute h.directory = false := by
    rw [FileTree.makeDirectories?, if_neg hne] at hmade
    split at hmade
    · cases hmade
    · rename_i habsolute
      simpa using habsolute
  have hlist : made.list? h.directory = some (h.stored files) := by
    obtain ⟨entries, hlist⟩ := FileTree.exists_list?_of_write? hlast hne hrel hname hwrite
    simp [stored, hmade, hlist]
  -- the name is free or that of a file, since the file was written
  have hfile : ∀ node, OrderedMap.lookup? (nameOf (h.freeStamp files first)) (h.stored files) =
      some node → node.isFile = true := by
    intro node hnode
    cases node with
    | file content => rfl
    | directory below =>
      rw [FileTree.write?_join_directory hlist hlast hname hnode] at hwrite
      cases hwrite
    | link target =>
      have htarget := hlinks _ (OrderedMap.mem_of_lookup?_eq_some hnode)
        (by rw [stamp?_nameOf hstamp]; rfl)
      cases htarget
  obtain ⟨written', hwrite', hlist'⟩ :=
    FileTree.write?_join e.toText.toUTF8 hlist hlast hname hfile
  obtain rfl : written' = written := Option.some.inj (hwrite'.symm.trans hwrite)
  have hlinks' : ∀ entry ∈ h.storedWith files e first, (stamp? entry.1).isSome = true →
      entry.2.target? = none := by
    intro entry hentry hsome
    rcases hproper.mem_store hentry with rfl | hentry
    · rfl
    · exact hlinks entry hentry hsome
  obtain ⟨pruned, hpruned, hleft⟩ :=
    prune_eq hlast hlist' (hproper.store hname.no_slash _) hlinks'
  obtain rfl : pruned = files' := Except.ok.inj (hpruned.symm.trans hprune)
  exact hleft

theorem valid_foldl_remove (paths : List String) :
    ∀ {files : FileTree}, files.Valid →
      (paths.foldl (fun files path => (files.remove? path).getD files) files).Valid := by
  induction paths with
  | nil => exact fun hvalid => hvalid
  | cons path rest ih =>
    intro files hvalid
    refine ih ?_
    change ((files.remove? path).getD files).Valid
    cases hremove : files.remove? path with
    | none => exact hvalid
    | some removed => exact hvalid.remove? hremove

/-- A save keeps a tree valid. -/
theorem valid_of_save {e : Evaluation} {first : Int} {path : String} (hvalid : files.Valid)
    (hs : h.save files e first = .ok (path, files')) : files'.Valid := by
  obtain ⟨-, made, written, hmade, hwrite, hprune⟩ := save_eq_ok hs
  obtain ⟨paths, -, hprune⟩ := bind_eq_ok hprune
  cases hprune
  exact valid_foldl_remove _ ((hvalid.makeDirectories? hmade).write? hwrite)

/-! ## Whether the evaluation just saved is kept -/

/-- Whether an evaluation is stored at a path that is listed. -/
def Keeps (h : History) (files : FileTree) (path : String) (e : Evaluation) : Prop :=
  files.read? path = some e.toText.toUTF8 ∧ ∃ paths, h.list files = .ok paths ∧ path ∈ paths

/-- Storing a name does not change what is listed before it. -/
theorem listedBefore_store (entries : List (String × FileTree)) (stamp : Int) (name : String)
    (node : FileTree) :
    listedBefore ((OrderedMap.store name node entries).map Prod.fst) stamp name =
      listedBefore (entries.map Prod.fst) stamp name := by
  rw [OrderedMap.map_fst_store]
  split
  · rfl
  · simp [listedBefore]

/-- Of distinct elements, those that are not dropped are taken. -/
theorem notMem_drop_iff {names : List String} {name : String} (hnodup : names.Nodup)
    (hmem : name ∈ names) (limit : Nat) : name ∉ names.drop limit ↔ name ∈ names.take limit := by
  rw [← List.take_append_drop limit names] at hnodup hmem
  constructor
  · exact fun hdrop => (List.mem_append.mp hmem).resolve_right hdrop
  · exact fun htake hdrop => (List.nodup_append.mp hnodup).2.2 name htake name hdrop rfl

/-- A file of some name is left unless it is removed. -/
theorem lookup?_without (hproper : FileTree.ProperNames entries) {name : String}
    {content : ByteArray} (hentry : OrderedMap.lookup? name entries = some (.file content))
    (names : List String) :
    OrderedMap.lookup? name (without names entries) =
      if name ∈ names then none else some (.file content) := by
  split
  · rename_i hmem
    rw [OrderedMap.lookup?_eq_none_iff]
    intro hleft
    obtain ⟨e, he, rfl⟩ := List.mem_map.mp hleft
    obtain ⟨he, hkeep⟩ := List.mem_filter.mp he
    have hfile := OrderedMap.lookup?_eq_some_of_mem hproper.nodup he
    rw [hentry] at hfile
    simp [hmem, ← Option.some.inj hfile, FileTree.isDirectory] at hkeep
  · rename_i hmem
    refine OrderedMap.lookup?_eq_some_of_mem (hproper.filter _).nodup (List.mem_filter.mpr ?_)
    exact ⟨OrderedMap.mem_of_lookup?_eq_some hentry, by simp [hmem]⟩

/-- The entry of the evaluation just saved. -/
theorem lookup?_leftBySave {e : Evaluation} {first : Int} (hvalid : files.Valid)
    (hstamp : Text.fitsSigned64 (h.freeStamp files first) = true) :
    OrderedMap.lookup? (nameOf (h.freeStamp files first)) (h.leftBySave files e first) =
      if (listedBefore ((h.stored files).map Prod.fst) (h.freeStamp files first)
          (nameOf (h.freeStamp files first))).length < h.limit
      then some (.file e.toText.toUTF8) else none := by
  have hsome := stamp?_nameOf hstamp
  have hproper : FileTree.ProperNames (h.storedWith files e first) :=
    (properNames_stored hvalid).store (no_slash_nameOf _) _
  have hentry : OrderedMap.lookup? (nameOf (h.freeStamp files first))
      (h.storedWith files e first) = some (.file e.toText.toUTF8) := by
    rw [storedWith, OrderedMap.lookup?_store, if_pos rfl]
  have hmem : nameOf (h.freeStamp files first) ∈ (h.storedWith files e first).map Prod.fst :=
    List.mem_map.mpr ⟨_, OrderedMap.mem_of_lookup?_eq_some hentry, rfl⟩
  -- the new file is not pruned just if it is among those listed first
  have hkept := (notMem_drop_iff (nodup_stampedNames hproper.nodup)
    (mem_stampedNames.mpr ⟨hmem, by rw [hsome]; rfl⟩) h.limit).trans
      (mem_take_stampedNames hproper.nodup hmem hsome h.limit)
  rw [storedWith, listedBefore_store, ← storedWith] at hkept
  rw [leftBySave, lookup?_without hproper hentry]
  split
  · rename_i hdropped
    rw [if_neg (mt hkept.mpr (not_not.mpr hdropped))]
  · rename_i hdropped
    rw [if_pos (hkept.mp hdropped)]

/-- What is at the path of the evaluation just saved. -/
theorem get?_of_save {e : Evaluation} {first : Int} {path : String}
    (hne : h.directory ≠ "") (hlast : h.directory.toList.getLast? ≠ some '/')
    (hvalid : files.Valid)
    (hlinks : ∀ entry ∈ h.stored files, (stamp? entry.1).isSome = true → entry.2.target? = none)
    (hstamp : Text.fitsSigned64 (h.freeStamp files first) = true)
    (hs : h.save files e first = .ok (path, files')) :
    files'.get? path =
      if (listedBefore ((h.stored files).map Prod.fst) (h.freeStamp files first)
          (nameOf (h.freeStamp files first))).length < h.limit
      then some (.file e.toText.toUTF8) else none := by
  have hleft := list?_of_save hne hlast hvalid hlinks hstamp hs
  have hlookup := lookup?_leftBySave (e := e) hvalid hstamp
  obtain ⟨hpath, -⟩ := save_eq_ok hs
  rw [hpath, pathOf, FileTree.get?_join hleft hlast (isName_nameOf _)
    (by rw [hlookup]; split <;> rfl), hlookup]

/-- **Whether the evaluation just saved is kept**: just if fewer stored evaluations than the
limit are listed before it. Otherwise it is removed by the save itself. The workspace is one of the
tree: for a path that leaves it (see `FileTree.locate`) there is no such save. -/
theorem save_keeps_iff {workspace : String} {size : Nat} {e : Evaluation} {first : Int}
    {path : String} (hvalid : files.Valid)
    (hlinks : ∀ entry ∈ (ofWorkspace workspace size).stored files,
      (stamp? entry.1).isSome = true → entry.2.target? = none)
    (hstamp : Text.fitsSigned64 ((ofWorkspace workspace size).freeStamp files first) = true)
    (hs : (ofWorkspace workspace size).save files e first = .ok (path, files')) :
    let h := ofWorkspace workspace size
    let stamp := h.freeStamp files first
    let newer := listedBefore ((h.stored files).map Prod.fst) stamp (nameOf stamp)
    (h.Keeps files' path e ↔ newer.length < max size 1) ∧
      (files'.hasPath path = true ↔ newer.length < max size 1) := by
  obtain ⟨hne, hlast⟩ := directory_ofWorkspace workspace size
  have hlimit : (ofWorkspace workspace size).limit = max size 1 := rfl
  rw [← hlimit]
  generalize ofWorkspace workspace size = h at *
  intro h stamp newer
  have hget := get?_of_save hne hlast hvalid hlinks hstamp hs
  -- at its path is the file itself, or nothing any more
  by_cases hnewer : newer.length < h.limit
  · rw [if_pos hnewer] at hget
    have hlisted := list_eq (list?_of_save hne hlast hvalid hlinks hstamp hs)
    have hlookup := lookup?_leftBySave (e := e) hvalid hstamp
    rw [if_pos hnewer] at hlookup
    refine ⟨iff_of_true ⟨?_, _, hlisted, ?_⟩ hnewer, iff_of_true ?_ hnewer⟩
    · rw [FileTree.read?, hget]
    · rw [(save_eq_ok hs).1]
      refine List.mem_map_of_mem (mem_stampedNames.mpr ⟨?_, by rw [stamp?_nameOf hstamp]; rfl⟩)
      exact List.mem_map.mpr ⟨_, OrderedMap.mem_of_lookup?_eq_some hlookup, rfl⟩
    · rw [FileTree.hasPath, hget]
      rfl
  · rw [if_neg hnewer] at hget
    refine ⟨iff_of_false ?_ hnewer, iff_of_false ?_ hnewer⟩
    · rintro ⟨hread, -⟩
      rw [FileTree.read?, hget] at hread
      cases hread
    · rw [FileTree.hasPath, hget]
      exact Bool.false_ne_true

/-! ## Saves that succeed -/

/-- What a history finds in its directory: that is there with its entries, or it can be made
and has none. -/
structure Finds (h : History) (files : FileTree) (entries : List (String × FileTree)) : Prop where
  /-- the directory is there as soon as it is made -/
  made : ∃ made, files.makeDirectories? h.directory = some made ∧
    made.list? h.directory = some entries
  /-- what it has then was there before -/
  before : files.list? h.directory = some entries ∨ entries = []

theorem Finds.of_list? (hlist : files.list? h.directory = some entries) :
    h.Finds files entries :=
  ⟨⟨files, FileTree.makeDirectories?_of_list? hlist, hlist⟩, .inl hlist⟩

theorem Finds.stored_eq (hfinds : h.Finds files entries) : h.stored files = entries := by
  obtain ⟨made, hmade, hlist⟩ := hfinds.made
  simp [stored, hmade, hlist]

theorem stored_eq (hlist : files.list? h.directory = some entries) : h.stored files = entries :=
  (Finds.of_list? hlist).stored_eq

/-- The directory is there with its entries; or it is not there, and will have none. -/
theorem Finds.there_or_new (hfinds : h.Finds files entries) :
    files.list? h.directory = some entries ∨ files.list? h.directory = none ∧ entries = [] := by
  cases hlist : files.list? h.directory with
  | none => exact .inr ⟨rfl, hfinds.before.resolve_left (by simp [hlist])⟩
  | some found =>
    rw [← hfinds.stored_eq, (Finds.of_list? hlist).stored_eq]
    exact .inl rfl

/-- A second that no stored evaluation has is free itself. -/
theorem freeStamp_eq (first : Int) (hfree : files.hasPath (h.pathOf (nameOf first)) = false) :
    h.freeStamp files first = first := by
  simp [freeStamp, List.range_succ_eq_map, hfree]

/-- A save to a free name succeeds. -/
theorem exists_save (e : Evaluation) {first : Int}
    (hlast : h.directory.toList.getLast? ≠ some '/')
    (hfinds : h.Finds files entries) (hvalid : files.Valid)
    (hlinks : ∀ entry ∈ entries, (stamp? entry.1).isSome = true → entry.2.target? = none)
    (hfree : OrderedMap.lookup? (nameOf (h.freeStamp files first)) entries = none) :
    ∃ path files', h.save files e first = .ok (path, files') := by
  obtain ⟨made, hmade, hlist⟩ := hfinds.made
  have hname := isName_nameOf (h.freeStamp files first)
  have hproper : FileTree.ProperNames entries := by
    rw [← hfinds.stored_eq]
    exact properNames_stored hvalid
  obtain ⟨written, hwrite, hlist'⟩ :=
    FileTree.write?_join e.toText.toUTF8 hlist hlast hname (by simp [hfree])
  obtain ⟨files', hprune, -⟩ := prune_eq hlast hlist' (hproper.store hname.no_slash _)
    fun entry hentry hsome => by
      rcases hproper.mem_store hentry with rfl | hentry
      · rfl
      · exact hlinks entry hentry hsome
  refine ⟨h.pathOf (nameOf (h.freeStamp files first)), files', ?_⟩
  rw [save, hmade, pathOf]
  dsimp only
  rw [hwrite]
  dsimp only
  rw [hprune]
  rfl

/-- A workspace with nothing but the entries of its history. -/
def workspaceOf (entries : List (String × FileTree)) : FileTree :=
  .directory [(".statue", .directory [("evaluations", .directory entries)])]

theorem valid_workspaceOf {entries : List (String × FileTree)}
    (hentries : (FileTree.directory entries).Valid) : (workspaceOf entries).Valid :=
  FileTree.valid_empty.store (by decide) (FileTree.valid_empty.store (by decide) hentries)

theorem list?_workspaceOf (size : Nat) (entries : List (String × FileTree)) :
    (workspaceOf entries).list? (ofWorkspace "." size).directory = some entries := by
  change (workspaceOf entries).list? (ofWorkspace "." 1).directory = some entries
  have hnames : Path.names (ofWorkspace "." 1).directory = [".", ".statue", "evaluations"] := by
    decide +kernel
  refine FileTree.list?_eq_some_iff.mpr ⟨by decide +kernel, by decide +kernel, ?_⟩
  rw [hnames]
  exact ⟨_, _, .dot rfl (.entry rfl (by decide) (by decide) rfl rfl
    (.entry rfl (by decide) (by decide) rfl rfl .done)), rfl⟩

/-- A workspace with one stored evaluation, of second 50. -/
def shelf : FileTree :=
  .directory [(".statue", .directory [("evaluations", .directory
    [("evaluation-50.json", .file .empty)])])]

/-- An evaluation of one source, with one command that ended well. -/
def passed : Evaluation :=
  OrderedMap.ofList [("src", [{ command := "black", success := true, exitCode := some 0 }])]

theorem valid_shelf : shelf.Valid :=
  valid_workspaceOf (FileTree.valid_empty.store (by decide +kernel) (FileTree.valid_file .empty))

theorem list?_shelf : shelf.list? (ofWorkspace "." 1).directory =
    some [("evaluation-50.json", .file .empty)] :=
  list?_workspaceOf 1 [("evaluation-50.json", .file .empty)]

/-- A save in another second than the stored one succeeds, and stores in that second. -/
theorem save_shelf (first : Int) (hfirst : nameOf first ≠ "evaluation-50.json") :
    (ofWorkspace "." 1).freeStamp shelf first = first ∧
      ∃ path files', (ofWorkspace "." 1).save shelf passed first = .ok (path, files') := by
  have hlast := (directory_ofWorkspace "." 1).2
  have hentry : OrderedMap.lookup? (nameOf first) [("evaluation-50.json", FileTree.file .empty)] =
      none := by
    simp [OrderedMap.lookup?, Ne.symm hfirst]
  have hstamp : (ofWorkspace "." 1).freeStamp shelf first = first := by
    refine freeStamp_eq first ?_
    rw [FileTree.hasPath, pathOf, FileTree.get?_join list?_shelf hlast (isName_nameOf first)
      (by rw [hentry]; rfl), hentry]
    rfl
  refine ⟨hstamp, exists_save passed hlast (.of_list? list?_shelf) valid_shelf ?_
    (by rw [hstamp, hentry])⟩
  simp [FileTree.target?]

/-- A save in a second before the stored one is lost at once. -/
theorem save_before_is_lost :
    ∃ path files', (ofWorkspace "." 1).save shelf passed 1 = .ok (path, files') ∧
      files'.hasPath path = false ∧ ¬ (ofWorkspace "." 1).Keeps files' path passed := by
  obtain ⟨hstamp, path, files', hs⟩ := save_shelf 1 (by decide +kernel)
  obtain ⟨hne, hlast⟩ := directory_ofWorkspace "." 1
  have hget := get?_of_save hne hlast valid_shelf
    (by simp [stored_eq list?_shelf, FileTree.target?]) (by rw [hstamp]; decide) hs
  rw [hstamp, stored_eq list?_shelf, if_neg (by decide +kernel)] at hget
  refine ⟨path, files', hs, ?_, ?_⟩
  · rw [FileTree.hasPath, hget]
    rfl
  · rintro ⟨hread, -⟩
    rw [FileTree.read?, hget] at hread
    cases hread

/-- A save in a second after the stored one is kept. -/
theorem save_after_is_kept :
    ∃ path files', (ofWorkspace "." 1).save shelf passed 60 = .ok (path, files') ∧
      (ofWorkspace "." 1).Keeps files' path passed := by
  obtain ⟨hstamp, path, files', hs⟩ := save_shelf 60 (by decide +kernel)
  have hkeeps := (save_keeps_iff valid_shelf (by simp [stored_eq list?_shelf, FileTree.target?])
    (by rw [hstamp]; decide) hs).1
  rw [hstamp, stored_eq list?_shelf] at hkeeps
  exact ⟨path, files', hs, hkeeps.mpr (by decide +kernel)⟩

end Checkup.History
