import Checkup.Proofs.Entries

/-!
# What is written is there

Whatever links and dots a path leads through, and whether its file is new:

* `FileTree.follow_put` — following goes on to a file at the place that it led to before.
* `FileTree.read?_of_write?` — what is written to a path is read at that path.
* `FileTree.at?_makeDirectories?`, `FileTree.at?_touch?` — what is only added to a tree leaves its
  files as they are.
-/

namespace Checkup.FileTree

variable {root root' : FileTree} {links : Nat} {here names place : List String} {name : String}
  {entries : List (String × FileTree)} {content : ByteArray}

/-- A free name is one of a directory. -/
theorem follow_free (h : root.follow links here names = some (.free place name)) :
    ∃ entries, root.at? place = some (.directory entries) ∧
      OrderedMap.lookup? name entries = none := by
  fun_induction follow root links here names with
  | case1 links here =>
    obtain ⟨_, _, hfree⟩ := Option.map_eq_some_iff.mp h
    cases hfree
  | case2 _ _ _ _ _ ih | case4 _ _ _ _ _ _ _ ih | case7 _ _ _ _ _ _ _ _ _ _ _ ih
  | case8 _ _ _ _ _ _ _ _ _ _ _ ih => exact ih h
  | case9 links here other _ entries hat _ _ hentry =>
    cases h
    exact ⟨entries, hat, hentry⟩
  | case3 | case5 | case6 | case10 | case11 => cases h

/-- Following leads to a new file where it led to its free name, or to what was there before. -/
theorem follow_put {found : Place} (hplace : root.at? place = some (.directory entries))
    (hentry : ∀ node, OrderedMap.lookup? name entries = some node → node.isFile = true)
    (h : root.follow links here names = some found)
    (hfound : found = .free place name ∨ ∃ node, found = .present (place ++ [name]) node) :
    (put (.file content) (place ++ [name]) root).follow links here names =
      some (.present (place ++ [name]) (.file content)) := by
  obtain ⟨hedit, hput⟩ := edit_put (.file content) name hplace
  have hnew := at?_entry hput name
  rw [OrderedMap.lookup?_store, if_pos rfl] at hnew
  have hfile : ∀ node, root.at? (place ++ [name]) = some node → node.isFile = true :=
    fun node hnode => hentry node (at?_entry hplace name ▸ hnode)
  generalize put (.file content) (place ++ [name]) root = root' at hedit hput hnew ⊢
  -- every step is one in the new tree, and the last one ends at the file
  fun_induction follow root links here names with
  | case1 links here =>
    obtain ⟨node, hat, rfl⟩ := Option.map_eq_some_iff.mp h
    obtain ⟨old, hpresent⟩ := hfound.resolve_left (by simp)
    obtain ⟨rfl, -⟩ := Place.present.inj hpresent
    rw [follow, hnew, Option.map_some]
  | case2 links here others es hat ih =>
    obtain ⟨es', hat', -⟩ := hedit.at?_directory hat (not_prefix_of_isFile hfile hat)
    rw [follow, hat']
    simpa using ih h
  | case4 links here others es hat hempty _ ih =>
    obtain ⟨es', hat', -⟩ := hedit.at?_directory hat (not_prefix_of_isFile hfile hat)
    rw [follow, hat']
    simpa [hempty] using ih h
  | case7 here other others es hat hdot hdots target htarget links habsolute ih =>
    obtain ⟨es', hat', hentry'⟩ := hedit.exists_link hfile hat htarget
    rw [follow, hat']
    simpa [hdot, hdots, hentry', habsolute] using ih h
  | case8 links here other others es hat hdot hdots node hnode hother ih =>
    have hrest := ih h
    -- the entry is the old file, or another one
    by_cases hsame : here = place ∧ other = name
    · obtain ⟨rfl, rfl⟩ := hsame
      rw [follow, hput]
      simpa [hdot, hdots, OrderedMap.lookup?_store] using hrest
    · obtain ⟨es', node', hat', hentry', hnode'⟩ :=
        hedit.exists_entry hfile hat (not_and_or.mp hsame) hother (target?_eq_none hnode)
      rw [follow, hat']
      cases node' with
      | link target => cases hnode'
      | file _ | directory _ => simpa [hdot, hdots, hentry'] using hrest
  | case9 links here other others es hat hdot hdots hnone hempty =>
    cases h
    have hfree := hfound.resolve_right (by simp)
    cases hfree
    obtain rfl : others = [] := by simpa using hempty
    rw [follow, hput]
    simp [hdot, hdots, OrderedMap.lookup?_store, follow, hnew]
  | case3 | case5 | case6 | case10 | case11 => cases h

/-- A new file is read by a path that led to its free name, or to what was there before. -/
theorem read?_put {path : String} {found : Place}
    (hplace : root.at? place = some (.directory entries))
    (hentry : ∀ node, OrderedMap.lookup? name entries = some node → node.isFile = true)
    (h : root.locate path = some found)
    (hfound : found = .free place name ∨ ∃ node, found = .present (place ++ [name]) node) :
    (put (.file content) (place ++ [name]) root).read? path = some content := by
  obtain ⟨hne, hrel, hfollow⟩ := follow_of_locate h
  rw [read?, get?, locate_eq hne hrel, follow_put hplace hentry hfollow hfound]

/-- **What is written is read**, by the same path. -/
theorem read?_of_write? {path : String} (h : root.write? path content = some root') :
    root'.read? path = some content := by
  rw [write?] at h
  split at h
  · rename_i place old hlocate
    cases h
    obtain ⟨-, -, left, -, hat⟩ := walk_of_locate hlocate
    rcases List.eq_nil_or_concat place with rfl | ⟨before, name, rfl⟩
    · -- a path leads below the top, so that is no file
      obtain ⟨entries, htop⟩ :=
        exists_at?_of_follow (Path.names_ne_nil path) (follow_of_locate hlocate).2.2
      cases hat.symm.trans htop
    · rw [List.concat_eq_append] at hat hlocate ⊢
      obtain ⟨entries, hplace, hentry⟩ := exists_entry_of_at? hat
      refine read?_put hplace (fun node hnode => ?_) hlocate (.inr ⟨_, rfl⟩)
      cases hentry.symm.trans hnode
      rfl
  · rename_i parent name hlocate
    cases h
    obtain ⟨entries, hplace, hentry⟩ := follow_free (follow_of_locate hlocate).2.2
    exact read?_put hplace (by simp [hentry]) hlocate (.inl rfl)
  · cases h

/-! ## Files stay -/

theorem at?_of_follow {node : FileTree}
    (h : root.follow links here names = some (.present place node)) :
    root.at? place = some node := by
  rw [← List.append_nil names] at h
  obtain ⟨left, there, -, hthere⟩ := exists_walk h (.inr ⟨_, _, rfl⟩)
  rw [follow, Option.map_eq_some_iff] at hthere
  obtain ⟨node', hat, hnode⟩ := hthere
  cases hnode
  exact hat

section Stays

variable {file : List String} (hfile : root.at? file = some (.file content))
include hfile

/-- What is put at a free name leaves the files as they are. -/
theorem at?_put_of_free {new : FileTree} (hplace : root.at? place = some (.directory entries))
    (hfree : OrderedMap.lookup? name entries = none) :
    (put new (place ++ [name]) root).at? file = some (.file content) :=
  (edit_put new name hplace).1.at?_file ((at?_entry hplace name).trans hfree) hfile

theorem at?_makeDirectory? {before : List String}
    (h : root.makeDirectory? before name = some root') :
    root'.at? file = some (.file content) := by
  rw [makeDirectory?] at h
  split at h
  · cases h
    exact hfile
  · cases h
  · split at h
    · rename_i parent es hfollow
      split at h
      · cases h
      · rename_i hfree
        cases h
        exact at?_put_of_free hfile (at?_of_follow hfollow) (by simpa using hfree)
    · cases h

omit hfile in
theorem at?_makeDirectoriesAlong (names : List String) :
    ∀ {before : List String} {root root' : FileTree}, root.at? file = some (.file content) →
      makeDirectoriesAlong before names root = some root' →
        root'.at? file = some (.file content) := by
  induction names with
  | nil =>
    intro before root root' hfile h
    cases h
    exact hfile
  | cons name rest ih =>
    intro before root root' hfile h
    obtain ⟨made, hmade, h⟩ := Option.bind_eq_some_iff.mp h
    exact ih (at?_makeDirectory? hfile hmade) h

/-- Making directories leaves the files as they are. -/
theorem at?_makeDirectories? {path : String} (h : root.makeDirectories? path = some root') :
    root'.at? file = some (.file content) := by
  rw [makeDirectories?] at h
  split at h
  · cases h
    exact hfile
  · split at h
    · cases h
    · exact at?_makeDirectoriesAlong _ hfile h

/-- Opening a file to add to it leaves the files as they are. -/
theorem at?_touch? {path : String} (h : root.touch? path = some root') :
    root'.at? file = some (.file content) := by
  rw [touch?] at h
  split at h
  · cases h
    exact hfile
  · rename_i parent name hlocate
    cases h
    obtain ⟨es, hplace, hfree⟩ := follow_free (follow_of_locate hlocate).2.2
    exact at?_put_of_free hfile hplace hfree
  · cases h

end Stays

end Checkup.FileTree
