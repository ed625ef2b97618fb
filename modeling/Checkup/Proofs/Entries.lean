import Checkup.FileTree.Access
import Checkup.Proofs.Paths

/-!
# Entries by path

A path may lead anywhere, through links and upwards. What a program may rely on is less
tangled: the entries of a directory that a path leads to, by the paths that go on from it.

* `FileTree.get?_join`, `FileTree.write?_join`, `FileTree.remove?_join` — reading,
  writing and removing an entry, in terms of the entries of its directory.
* `FileTree.makeDirectories?_of_list?` — a directory that is there is not made again.
* `FileTree.Valid.makeDirectories?`, `Valid.write?`, `Valid.remove?` — changes by path
  keep a tree valid.
-/

namespace Checkup.FileTree

variable {root root' : FileTree} {place : List String} {entries : List (String × FileTree)}

theorem locate_eq {path : String} (hne : path ≠ "") (hrel : Path.isAbsolute path = false) :
    root.locate path = root.follow linkLimit [] (Path.names path) := by
  simp [locate, hne, hrel]

/-- A path that leads somewhere is followed along its names. -/
theorem follow_of_locate {path : String} {found : Place} (h : root.locate path = some found) :
    path ≠ "" ∧ Path.isAbsolute path = false ∧
      root.follow linkLimit [] (Path.names path) = some found := by
  have hpath : path ≠ "" ∧ Path.isAbsolute path = false := by
    rw [locate] at h
    split at h
    · cases h
    · rename_i hpath
      simpa using hpath
  exact ⟨hpath.1, hpath.2, locate_eq hpath.1 hpath.2 ▸ h⟩

/-- A path that leads to something has a walk along its names. -/
theorem walk_of_locate {path : String} {node : FileTree}
    (h : root.locate path = some (.present place node)) :
    path ≠ "" ∧ Path.isAbsolute path = false ∧
      ∃ left, Walk root linkLimit [] (Path.names path) left place ∧ root.at? place = some node := by
  obtain ⟨hne, hrel, hfollow⟩ := follow_of_locate h
  rw [← List.append_nil (Path.names path)] at hfollow
  obtain ⟨left, there, hwalk, hthere⟩ := exists_walk hfollow (.inr ⟨_, _, rfl⟩)
  rw [follow, Option.map_eq_some_iff] at hthere
  obtain ⟨node', hat, hnode⟩ := hthere
  cases hnode
  exact ⟨hne, hrel, left, hwalk, hat⟩

/-- Listing a path is walking along its names, to a directory. -/
theorem list?_eq_some_iff {path : String} :
    root.list? path = some entries ↔
      path ≠ "" ∧ Path.isAbsolute path = false ∧
        ∃ left place, Walk root linkLimit [] (Path.names path) left place ∧
          root.at? place = some (.directory entries) := by
  constructor
  · intro h
    have hfound : ∃ place, root.locate path = some (.present place (.directory entries)) := by
      rw [list?, get?] at h
      cases hl : root.locate path with
      | none => simp [hl] at h
      | some found =>
        rw [hl] at h
        cases found with
        | free _ _ => cases h
        | present place node =>
          cases node with
          | directory es => exact ⟨place, by rw [Option.some.inj h]⟩
          | file _ | link _ => cases h
    obtain ⟨place, hfound⟩ := hfound
    obtain ⟨hne, hrel, left, hwalk, hat⟩ := walk_of_locate hfound
    exact ⟨hne, hrel, left, place, hwalk, hat⟩
  · rintro ⟨hne, hrel, left, place, hwalk, hat⟩
    have hfound := hwalk.follow_append []
    rw [List.append_nil, ← locate_eq hne hrel, follow, hat] at hfound
    simp [list?, get?, hfound]

/-- A path with a listing leads to that directory. -/
theorem get?_of_list? {path : String} (h : root.list? path = some entries) :
    root.get? path = some (.directory entries) := by
  rw [list?] at h
  split at h
  · rename_i es hget
    rw [hget, Option.some.inj h]
  · cases h

/-- The current directory is the top of the tree. -/
theorem list?_dot (entries : List (String × FileTree)) :
    (directory entries).list? "." = some entries := by
  have hnames : Path.names "." = ["."] := by decide +kernel
  refine list?_eq_some_iff.mpr ⟨by decide, by decide, linkLimit, [], ?_, rfl⟩
  rw [hnames]
  exact .dot rfl .done

variable {dir name : String}

/-- A path into a directory is not absolute, unless that of the directory is. -/
theorem join_relative (hne : dir ≠ "") (hrel : Path.isAbsolute dir = false)
    (hname : Path.IsName name) :
    Path.join dir name ≠ "" ∧ Path.isAbsolute (Path.join dir name) = false := by
  obtain ⟨c, cs, hcs⟩ := List.exists_cons_of_ne_nil fun h => hne (String.toList_eq_nil_iff.mp h)
  have hc : c ≠ '/' := by simpa [Path.isAbsolute, hcs] using hrel
  have hjoin : ∃ rest, (Path.join dir name).toList = c :: rest := by
    rw [Path.join, hname.isAbsolute_eq, if_neg Bool.false_ne_true, if_neg hne]
    split <;> simp [hcs]
  obtain ⟨rest, hrest⟩ := hjoin
  refine ⟨fun h => ?_, ?_⟩
  · simp [h] at hrest
  · simp [Path.isAbsolute, hrest, hc]

/-- Where a path into a directory leads, unless it is to a link. -/
theorem locate_join {left : Nat} (hne : dir ≠ "") (hrel : Path.isAbsolute dir = false)
    (hlast : dir.toList.getLast? ≠ some '/') (hname : Path.IsName name)
    (hwalk : Walk root linkLimit [] (Path.names dir) left place)
    (hat : root.at? place = some (.directory entries))
    (hlink : (OrderedMap.lookup? name entries).bind target? = none) :
    root.locate (Path.join dir name) =
      some (match OrderedMap.lookup? name entries with
        | none => .free place name
        | some node => .present (place ++ [name]) node) := by
  have hjoin := join_relative hne hrel hname
  rw [locate_eq hjoin.1 hjoin.2, Path.names_join hne hlast hname, hwalk.follow_append, follow, hat]
  have hentry := at?_entry hat name
  cases hl : OrderedMap.lookup? name entries with
  | none => simp [hname.ne_dot, hname.ne_dots, hl]
  | some node =>
    rw [hl] at hentry hlink
    cases node with
    | link target => cases hlink
    | file _ | directory _ => simp [hname.ne_dot, hname.ne_dots, hl, follow, hentry]

/-- A path into a directory leads to the entry of that name, unless it is a link. -/
theorem get?_join (hlist : root.list? dir = some entries)
    (hlast : dir.toList.getLast? ≠ some '/') (hname : Path.IsName name)
    (hlink : (OrderedMap.lookup? name entries).bind target? = none) :
    root.get? (Path.join dir name) = OrderedMap.lookup? name entries := by
  obtain ⟨hne, hrel, left, place, hwalk, hat⟩ := list?_eq_some_iff.mp hlist
  rw [get?, locate_join hne hrel hlast hname hwalk hat hlink]
  cases OrderedMap.lookup? name entries <;> rfl

/-- A path into a directory leads somewhere just if there is an entry of that name. -/
theorem hasPath_join (hlist : root.list? dir = some entries)
    (hlast : dir.toList.getLast? ≠ some '/') (hname : Path.IsName name)
    (hlink : (OrderedMap.lookup? name entries).bind target? = none) :
    root.hasPath (Path.join dir name) = (OrderedMap.lookup? name entries).isSome := by
  rw [hasPath, get?_join hlist hlast hname hlink]

/-- A path that leads on from another one leads into a directory. -/
theorem exists_list?_of_locate {found : Place} (hlast : dir.toList.getLast? ≠ some '/')
    (hne : dir ≠ "") (hrel : Path.isAbsolute dir = false) (hname : Path.IsName name)
    (h : root.locate (Path.join dir name) = some found) :
    ∃ entries, root.list? dir = some entries := by
  have hfollow := (follow_of_locate h).2.2
  rw [Path.names_join hne hlast hname] at hfollow
  obtain ⟨left, place, hwalk, hfollow⟩ := exists_walk hfollow (.inl (List.cons_ne_nil _ _))
  rw [follow] at hfollow
  split at hfollow
  · rename_i entries hat
    exact ⟨entries, list?_eq_some_iff.mpr ⟨hne, hrel, left, place, hwalk, hat⟩⟩
  · cases hfollow

/-- Writing to a path that leads on from another one is writing into a directory. -/
theorem exists_list?_of_write? {content : ByteArray} (hlast : dir.toList.getLast? ≠ some '/')
    (hne : dir ≠ "") (hrel : Path.isAbsolute dir = false) (hname : Path.IsName name)
    (h : root.write? (Path.join dir name) content = some root') :
    ∃ entries, root.list? dir = some entries := by
  cases hlocate : root.locate (Path.join dir name) with
  | none => simp [write?, hlocate] at h
  | some found => exact exists_list?_of_locate hlast hne hrel hname hlocate

/-- Writing a free name or a file of a directory stores the new file there. -/
theorem write?_join (content : ByteArray) (hlist : root.list? dir = some entries)
    (hlast : dir.toList.getLast? ≠ some '/') (hname : Path.IsName name)
    (hfile : ∀ node, OrderedMap.lookup? name entries = some node → node.isFile = true) :
    ∃ root', root.write? (Path.join dir name) content = some root' ∧
      root'.list? dir = some (OrderedMap.store name (.file content) entries) := by
  obtain ⟨hne, hrel, left, place, hwalk, hat⟩ := list?_eq_some_iff.mp hlist
  obtain ⟨hedit, hat'⟩ := edit_put (.file content) name hat
  have hwalk' := hwalk.edit hedit (fun node hnode => hfile node (at?_entry hat name ▸ hnode)) hat
  refine ⟨_, ?_, list?_eq_some_iff.mpr ⟨hne, hrel, left, place, hwalk', hat'⟩⟩
  cases hl : OrderedMap.lookup? name entries with
  | none =>
    have hlocate := locate_join hne hrel hlast hname hwalk hat (by rw [hl]; rfl)
    rw [hl] at hlocate
    rw [write?, hlocate]
  | some node =>
    cases node with
    | file old =>
      have hlocate := locate_join hne hrel hlast hname hwalk hat (by rw [hl]; rfl)
      rw [hl] at hlocate
      rw [write?, hlocate]
    | directory _ | link _ => cases hfile _ hl

/-- A directory is not written to. -/
theorem write?_join_directory {content : ByteArray} {below : List (String × FileTree)}
    (hlist : root.list? dir = some entries) (hlast : dir.toList.getLast? ≠ some '/')
    (hname : Path.IsName name)
    (hentry : OrderedMap.lookup? name entries = some (.directory below)) :
    root.write? (Path.join dir name) content = none := by
  obtain ⟨hne, hrel, left, place, hwalk, hat⟩ := list?_eq_some_iff.mp hlist
  have hlocate := locate_join hne hrel hlast hname hwalk hat (by rw [hentry]; rfl)
  rw [hentry] at hlocate
  rw [write?, hlocate]

/-- What is removed by a path into a directory: the entry, if it is a file. -/
theorem remove?_join (hlist : root.list? dir = some entries)
    (hlast : dir.toList.getLast? ≠ some '/') (hname : Path.IsName name)
    (hlink : (OrderedMap.lookup? name entries).bind target? = none) :
    (∃ content root', OrderedMap.lookup? name entries = some (.file content) ∧
        root.remove? (Path.join dir name) = some root' ∧
        root'.list? dir = some (entries.filter fun e => e.1 ≠ name)) ∨
      ((∀ content, OrderedMap.lookup? name entries ≠ some (.file content)) ∧
        root.remove? (Path.join dir name) = none) := by
  obtain ⟨hne, hrel, left, place, hwalk, hat⟩ := list?_eq_some_iff.mp hlist
  have hjoin := join_relative hne hrel hname
  have hentry : root.locateEntry (Path.join dir name) = some (place, name) := by
    have hfollow := hwalk.follow_append []
    rw [List.append_nil, follow, hat] at hfollow
    simp [locateEntry, hjoin, Path.names_join hne hlast hname, hname.ne_dot, hname.ne_dots,
      hfollow]
  -- only a file is removed: the name may be free, or that of a directory
  cases hl : OrderedMap.lookup? name entries with
  | none => exact .inr ⟨by simp, by simp [remove?, hentry, at?_entry hat, hl]⟩
  | some node =>
    cases node with
    | link target => simp [hl, target?] at hlink
    | directory below =>
      exact .inr ⟨by simp, by simp [remove?, hentry, at?_entry hat, hl]⟩
    | file content =>
      obtain ⟨hedit, hat'⟩ := edit_erase name hat
      have hfile : ∀ node, root.at? (place ++ [name]) = some node → node.isFile = true := by
        intro node hnode
        rw [at?_entry hat, hl] at hnode
        cases hnode
        rfl
      refine .inl ⟨content, erase (place ++ [name]) root, rfl, ?_, ?_⟩
      · simp [remove?, hentry, at?_entry hat, hl]
      · exact list?_eq_some_iff.mpr ⟨hne, hrel, left, place, hwalk.edit hedit hfile hat, hat'⟩

/-! ## Directories that are there -/

/-- A walk to a directory comes through directories. -/
theorem exists_present {links : Nat} {here before rest : List String}
    (h : root.follow links here (before ++ rest) = some (.present place (.directory entries))) :
    ∃ there es, root.follow links here before = some (.present there (.directory es)) := by
  obtain ⟨left, there, hwalk, hrest⟩ := exists_walk h (.inr ⟨_, _, rfl⟩)
  obtain ⟨es, hat⟩ := exists_at?_of_follow_directory hrest
  have hbefore := hwalk.follow_append []
  rw [List.append_nil, follow, hat] at hbefore
  exact ⟨there, es, hbefore⟩

/-- Directories that are there need not be made. -/
theorem makeDirectories?_of_list? {path : String} (hlist : root.list? path = some entries) :
    root.makeDirectories? path = some root := by
  obtain ⟨hne, hrel, left, place, hwalk, hat⟩ := list?_eq_some_iff.mp hlist
  have hfollow := hwalk.follow_append []
  rw [follow, hat] at hfollow
  -- along the names there is a directory every time, which is not made again
  have halong : ∀ names before : List String,
      root.follow linkLimit [] (before ++ names) = some (.present place (.directory entries)) →
        makeDirectoriesAlong before names root = some root := by
    intro names
    induction names with
    | nil => exact fun _ _ => rfl
    | cons name rest ih =>
      intro before h
      rw [← List.singleton_append, ← List.append_assoc] at h
      obtain ⟨there, es, hthere⟩ := exists_present h
      rw [makeDirectoriesAlong, makeDirectory?, hthere]
      exact ih _ h
  rw [makeDirectories?, if_neg hne, if_neg (by simp [hrel])]
  exact halong _ [] (by simpa using hfollow)

/-! ## Trees stay valid -/

/-- A directory that a path leads to is valid. -/
theorem Valid.of_list? {path : String} (h : root.Valid) (hlist : root.list? path = some entries) :
    Valid (.directory entries) := by
  obtain ⟨-, -, left, place, -, hat⟩ := list?_eq_some_iff.mp hlist
  exact h.of_at? hat

/-- A name in a valid tree has no slash. -/
theorem Valid.no_slash {t : FileTree} (h : t.Valid) {node : FileTree}
    (hat : t.at? (place ++ [name]) = some node) : '/' ∉ name.toList := by
  obtain ⟨es, hparent, hentry⟩ := exists_entry_of_at? hat
  exact (h place es hparent).of_lookup? hentry

/-- Replacing what is at a place by a valid node keeps a tree valid. -/
theorem Valid.put_present {t new node : FileTree} (h : t.Valid) (hnew : new.Valid)
    (hat : t.at? place = some node) : (FileTree.put new place t).Valid := by
  rcases List.eq_nil_or_concat place with rfl | ⟨before, name, rfl⟩
  · cases t <;> exact hnew
  · rw [List.concat_eq_append] at hat ⊢
    exact h.put hnew (h.no_slash hat) before

/-- A free name that names without slashes lead to has no slash. -/
theorem no_slash_of_free {links : Nat} {here names parent : List String} {name : String}
    (hnames : ∀ n ∈ names, '/' ∉ n.toList)
    (h : root.follow links here names = some (.free parent name)) : '/' ∉ name.toList := by
  -- names come from the path or from the links on the way
  fun_induction follow root links here names with
  | case1 links here =>
    obtain ⟨_, _, hfree⟩ := Option.map_eq_some_iff.mp h
    cases hfree
  | case2 _ _ _ _ _ ih | case4 _ _ _ _ _ _ _ ih =>
    exact ih (fun n hn => hnames n (List.mem_cons_of_mem _ hn)) h
  | case7 _ _ _ _ _ _ _ target _ _ _ ih =>
    refine ih (fun n hn => ?_) h
    rcases List.mem_append.mp hn with hn | hn
    · exact Path.no_slash_of_mem_names hn
    · exact hnames n (List.mem_cons_of_mem _ hn)
  | case8 _ _ _ _ _ _ _ _ _ _ _ ih =>
    exact ih (fun n hn => hnames n (List.mem_cons_of_mem _ hn)) h
  | case9 links here other _ _ _ _ _ _ =>
    cases h
    exact hnames _ List.mem_cons_self
  | case3 | case5 | case6 | case10 | case11 => cases h

theorem valid_file (content : ByteArray) : Valid (.file content) := valid_of_entries_eq_nil rfl

theorem valid_empty : Valid .empty := valid_of_entries_eq_nil rfl

/-- A directory of nothing but files is valid with its names. -/
theorem valid_of_files {entries : List (String × FileTree)} (hnames : ProperNames entries)
    (hfiles : ∀ entry ∈ entries, entry.2.isFile = true) : Valid (.directory entries) := by
  refine valid_of_entries hnames fun ⟨name, node⟩ hentry => ?_
  have hfile := hfiles _ hentry
  cases node with
  | file content => exact valid_file content
  | directory _ | link _ => cases hfile

/-- Writing keeps a tree valid. -/
theorem Valid.write? {path : String} {content : ByteArray} (h : root.Valid)
    (hw : root.write? path content = some root') : root'.Valid := by
  rw [FileTree.write?] at hw
  split at hw
  · rename_i place old hlocate
    cases hw
    obtain ⟨-, -, left, -, hat⟩ := walk_of_locate hlocate
    exact h.put_present (valid_file content) hat
  · rename_i parent name hlocate
    cases hw
    refine h.put (valid_file content) ?_ parent
    rw [locate] at hlocate
    split at hlocate
    · cases hlocate
    · exact no_slash_of_free (fun n hn => Path.no_slash_of_mem_names hn) hlocate
  · cases hw

/-- Removing keeps a tree valid. -/
theorem Valid.remove? {path : String} (h : root.Valid)
    (hr : root.remove? path = some root') : root'.Valid := by
  rw [FileTree.remove?] at hr
  obtain ⟨⟨parent, name⟩, -, hr⟩ := Option.bind_eq_some_iff.mp hr
  dsimp only at hr
  split at hr
  · cases hr
    exact h.erase parent name
  · cases hr
    exact h.erase parent name
  · cases hr

theorem Valid.makeDirectory? {before : List String} (h : root.Valid)
    (hname : '/' ∉ name.toList) (hm : root.makeDirectory? before name = some root') :
    root'.Valid := by
  rw [FileTree.makeDirectory?] at hm
  split at hm
  · cases hm
    exact h
  · cases hm
  · split at hm
    · rename_i parent es _
      split at hm
      · cases hm
      · cases hm
        exact h.put valid_empty hname parent
    · cases hm

theorem Valid.makeDirectoriesAlong {names : List String} (hnames : ∀ n ∈ names, '/' ∉ n.toList) :
    ∀ {before : List String} {root root' : FileTree}, root.Valid →
      FileTree.makeDirectoriesAlong before names root = some root' → root'.Valid := by
  induction names with
  | nil =>
    intro before root root' h hm
    cases hm
    exact h
  | cons name rest ih =>
    intro before root root' h hm
    obtain ⟨made, hmade, hm⟩ := Option.bind_eq_some_iff.mp hm
    have hmade' := h.makeDirectory? (hnames name List.mem_cons_self) hmade
    exact ih (fun n hn => hnames n (List.mem_cons_of_mem _ hn)) hmade' hm

/-- Making directories keeps a tree valid. -/
theorem Valid.makeDirectories? {path : String} (h : root.Valid)
    (hm : root.makeDirectories? path = some root') : root'.Valid := by
  rw [FileTree.makeDirectories?] at hm
  split at hm
  · cases hm
    exact h
  · split at hm
    · cases hm
    · exact h.makeDirectoriesAlong (fun n hn => Path.no_slash_of_mem_names hn) hm

end Checkup.FileTree
