import Checkup.FileTree.Locate
import Checkup.Proofs.Places

/-!
# Walks along paths

Names are followed through dots, double dots and links, one after the other:

* `Path.names_join` — the names along a path with one more name.
* `FileTree.Walk` — a walk along names, as a relation; following goes on where it ends,
  and what is followed beyond some names has a walk along them (`Walk.follow_append`,
  `exists_walk`).
* `FileTree.Walk.edit` — a walk to a directory does not mind a change of an entry that
  is neither a directory nor a link.
-/

namespace Checkup

namespace Path

open Text (pieces pieces_ne_nil pieces_of_notMem notMem_of_mem_pieces pieces_append_cons
  eq_nil_or_of_pieces)

/-- A name that an entry of a directory can have. -/
structure IsName (name : String) : Prop where
  /-- it is not a dot -/
  ne_dot : name ≠ "."
  /-- it is not a double dot -/
  ne_dots : name ≠ ".."
  /-- it is not empty -/
  ne_empty : name ≠ ""
  /-- it has no slash -/
  no_slash : '/' ∉ name.toList

/-- A name is a path that is not absolute. -/
theorem IsName.isAbsolute_eq {name : String} (h : IsName name) : isAbsolute name = false := by
  rw [isAbsolute, decide_eq_false_iff_not]
  intro hhead
  exact h.no_slash (List.mem_of_mem_head? hhead)

/-- A path without a slash is its only component. -/
theorem components_of_no_slash {path : String} (hne : path ≠ "") (h : '/' ∉ path.toList) :
    components path = [path] := by
  simp [components, pieces_of_notMem h, hne]

theorem isSignificant_iff {piece : List Char} :
    isSignificant piece = true ↔ piece ≠ [] ∧ String.ofList piece ≠ "." := by
  have hdot : String.ofList piece = "." ↔ piece = ['.'] := by
    rw [← String.toList_inj, String.toList_ofList]
    rfl
  simp [isSignificant, hdot]

/-! ## Names along a path -/

/-- The names along a path are its pieces, unless it ends in a slash. -/
theorem names_eq_of_pieces {path : String} (h : (pieces '/' path.toList).getLast? ≠ some []) :
    names path = ((pieces '/' path.toList).filter (· ≠ [])).map String.ofList := by
  obtain ⟨before, last, hsplit⟩ : ∃ before last, pieces '/' path.toList = before ++ [last] :=
    ⟨_, _, (List.dropLast_append_getLast (pieces_ne_nil _)).symm⟩
  have hlast : last ≠ [] := by
    rintro rfl
    exact h (by simp [hsplit])
  simp [names, hsplit, hlast]

theorem getLast?_pieces {path : String} (hne : path ≠ "")
    (hlast : path.toList.getLast? ≠ some '/') :
    (pieces '/' path.toList).getLast? ≠ some [] := by
  intro h
  rcases eq_nil_or_of_pieces h with h | h
  · exact hne (String.toList_eq_nil_iff.mp h)
  · exact hlast h

section Join

variable {dir name : String} (hdir : dir ≠ "") (hlast : dir.toList.getLast? ≠ some '/')
  (hname : IsName name)
include hdir hlast hname

/-- A directory that does not end in a slash gets one before a name. -/
theorem join_eq : join dir name = dir ++ "/" ++ name := by
  simp [join, hname.isAbsolute_eq, hdir, hlast]

theorem pieces_join :
    pieces '/' (join dir name).toList = pieces '/' dir.toList ++ [name.toList] := by
  have hslash : pieces '/' (dir.toList ++ '/' :: name.toList) =
      pieces '/' dir.toList ++ pieces '/' name.toList := pieces_append_cons _ _
  rw [pieces_of_notMem hname.no_slash] at hslash
  simpa [join_eq hdir hlast hname] using hslash

/-- A path into a directory has one name more than that of the directory. -/
theorem names_join : names (join dir name) = names dir ++ [name] := by
  have hne : name.toList ≠ [] := fun h => hname.ne_empty (String.toList_eq_nil_iff.mp h)
  have hpieces := pieces_join hdir hlast hname
  rw [names_eq_of_pieces (getLast?_pieces hdir hlast), names_eq_of_pieces, hpieces]
  · simp [List.filter_append, hne]
  · simpa [hpieces] using hne

end Join

theorem names_ne_nil (path : String) : names path ≠ [] := by
  rw [names]
  split
  · rename_i hnil
    exact absurd (List.reverse_eq_nil_iff.mp hnil) (pieces_ne_nil _)
  · exact List.concat_ne_nil _ _

/-- No name along a path has a slash. -/
theorem no_slash_of_mem_names {path name : String} (h : name ∈ names path) :
    '/' ∉ name.toList := by
  rw [names] at h
  split at h
  · cases h
  · rename_i last before hsplit
    have hmem : ∀ piece ∈ last :: before, '/' ∉ piece := fun piece hp =>
      notMem_of_mem_pieces (List.mem_reverse.mp (hsplit ▸ hp))
    rcases List.mem_append.mp h with h | h
    · obtain ⟨piece, hp, rfl⟩ := List.mem_map.mp h
      have hp' := List.mem_reverse.mp (List.mem_filter.mp hp).1
      simpa using hmem piece (List.mem_cons_of_mem _ hp')
    · rw [List.mem_singleton.mp h]
      split
      · decide
      · simpa using hmem last List.mem_cons_self

end Path

namespace FileTree

variable {root root' : FileTree} {links : Nat} {here place : List String}
  {entries : List (String × FileTree)}

/-! ## Walks -/

/-- A walk along names from one place to another, with so many links still to follow
before and after it. -/
inductive Walk (root : FileTree) : Nat → List String → List String → Nat → List String → Prop
  /-- there are no names -/
  | done {links : Nat} {here : List String} : Walk root links here [] links here
  /-- a dot stays -/
  | dot {links left : Nat} {here rest there : List String} {entries : List (String × FileTree)} :
      root.at? here = some (.directory entries) → Walk root links here rest left there →
      Walk root links here ("." :: rest) left there
  /-- a double dot goes up -/
  | up {links left : Nat} {here rest there : List String} {entries : List (String × FileTree)} :
      root.at? here = some (.directory entries) → here ≠ [] →
      Walk root links here.dropLast rest left there →
      Walk root links here (".." :: rest) left there
  /-- a link goes where its names go -/
  | link {links left : Nat} {here rest there : List String} {entries : List (String × FileTree)}
      {name target : String} :
      root.at? here = some (.directory entries) → name ≠ "." → name ≠ ".." →
      OrderedMap.lookup? name entries = some (.link target) → Path.isAbsolute target = false →
      Walk root links here (Path.names target ++ rest) left there →
      Walk root (links + 1) here (name :: rest) left there
  /-- another entry goes down -/
  | entry {links left : Nat} {here rest there : List String} {entries : List (String × FileTree)}
      {name : String} {node : FileTree} :
      root.at? here = some (.directory entries) → name ≠ "." → name ≠ ".." →
      OrderedMap.lookup? name entries = some node → node.target? = none →
      Walk root links (here ++ [name]) rest left there →
      Walk root links here (name :: rest) left there

theorem target?_eq_none {node : FileTree} (h : ∀ target, node = .link target → False) :
    node.target? = none := by
  cases node with
  | link target => exact absurd rfl (h target)
  | _ => rfl

/-- Following goes on where a walk ends. -/
theorem Walk.follow_append {names there : List String} {left : Nat}
    (h : Walk root links here names left there) (rest : List String) :
    root.follow links here (names ++ rest) = root.follow left there rest := by
  induction h with
  | done => rfl
  | dot hat _ ih =>
    rw [List.cons_append, follow, hat]
    simpa using ih
  | up hat hhere _ ih =>
    rw [List.cons_append, follow, hat]
    simpa [hhere] using ih
  | link hat hdot hdots hentry htarget _ ih =>
    rw [List.cons_append, follow, hat]
    simpa [hdot, hdots, hentry, htarget] using ih
  | @entry _ _ _ _ _ _ _ node hat hdot hdots hentry hnode _ ih =>
    rw [List.cons_append, follow, hat]
    cases node with
    | link target => cases hnode
    | _ => simpa [hdot, hdots, hentry] using ih

/-- What can be followed beyond some names has a walk along them. -/
theorem exists_walk {names rest : List String} {found : Place}
    (h : root.follow links here (names ++ rest) = some found)
    (hrest : rest ≠ [] ∨ ∃ place node, found = .present place node) :
    ∃ left there, Walk root links here names left there ∧
      root.follow left there rest = some found := by
  -- a step of following is one of the walk; a refusal would end it before the rest
  fun_induction follow root links here names with
  | case1 links here => exact ⟨links, here, .done, h⟩
  | case2 links here others entries hat ih =>
    rw [List.cons_append, follow, hat] at h
    obtain ⟨left, there, hwalk, hfound⟩ := ih (by simpa using h)
    exact ⟨left, there, .dot hat hwalk, hfound⟩
  | case3 links here others entries hat hempty =>
    rw [List.cons_append, follow, hat] at h
    simp [hempty] at h
  | case4 links here others entries hat hempty _ ih =>
    rw [List.cons_append, follow, hat] at h
    obtain ⟨left, there, hwalk, hfound⟩ := ih (by simpa [hempty] using h)
    exact ⟨left, there, .up hat (by simpa using hempty) hwalk, hfound⟩
  | case5 here name others entries hat hdot hdots target hentry =>
    rw [List.cons_append, follow, hat] at h
    simp [hdot, hdots, hentry] at h
  | case6 here name others entries hat hdot hdots target hentry links htarget =>
    rw [List.cons_append, follow, hat] at h
    simp [hdot, hdots, hentry, htarget] at h
  | case7 here name others entries hat hdot hdots target hentry links htarget ih =>
    rw [List.cons_append, follow, hat] at h
    obtain ⟨left, there, hwalk, hfound⟩ := ih (by simpa [hdot, hdots, hentry, htarget] using h)
    exact ⟨left, there, .link hat hdot hdots hentry (by simpa using htarget) hwalk, hfound⟩
  | case8 links here name others entries hat hdot hdots node hnode hentry ih =>
    rw [List.cons_append, follow, hat] at h
    obtain ⟨left, there, hwalk, hfound⟩ := ih (by simpa [hdot, hdots, hentry] using h)
    exact ⟨left, there, .entry hat hdot hdots hentry (target?_eq_none hnode) hwalk, hfound⟩
  | case9 links here name others entries hat hdot hdots hentry hothers =>
    -- a free name, which is no place that more names or a node could be found at
    obtain rfl : others = [] := by simpa using hothers
    rw [List.cons_append, follow, hat] at h
    simp only [hdot, hdots, hentry, if_false, List.nil_append] at h
    split at h
    · rename_i hnil
      rcases hrest with hrest | ⟨place, node, rfl⟩
      · exact absurd (by simpa using hnil) hrest
      · cases h
    · cases h
  | case10 links here name others entries hat hdot hdots hentry hothers =>
    rw [List.cons_append, follow, hat] at h
    simp only [hdot, hdots, hentry, if_false] at h
    split at h
    · rename_i hnil
      exact absurd (by simpa using (List.append_eq_nil_iff.mp (by simpa using hnil)).1) hothers
    · cases h
  | case11 links here name others hat =>
    rw [List.cons_append, follow] at h
    split at h
    · rename_i entries hdir
      exact absurd hdir (hat entries)
    · cases h

/-- Names that lead somewhere start in a directory. -/
theorem exists_at?_of_follow {names : List String} {found : Place} (hne : names ≠ [])
    (h : root.follow links here names = some found) :
    ∃ entries, root.at? here = some (.directory entries) := by
  obtain ⟨first, rest, rfl⟩ := List.exists_cons_of_ne_nil hne
  rw [follow] at h
  split at h
  · rename_i entries hat
    exact ⟨entries, hat⟩
  · cases h

/-- So do names that lead to a directory. -/
theorem exists_at?_of_follow_directory {names : List String}
    (h : root.follow links here names = some (.present place (.directory entries))) :
    ∃ entries, root.at? here = some (.directory entries) := by
  cases names with
  | nil =>
    rw [follow, Option.map_eq_some_iff] at h
    obtain ⟨node, hat, hnode⟩ := h
    cases hnode
    exact ⟨entries, hat⟩
  | cons name rest => exact exists_at?_of_follow (List.cons_ne_nil _ _) h

/-- A walk to a directory starts in one. -/
theorem Walk.start {names there : List String} {left : Nat}
    (h : Walk root links here names left there)
    (hthere : root.at? there = some (.directory entries)) :
    ∃ entries, root.at? here = some (.directory entries) := by
  cases h with
  | done => exact ⟨_, hthere⟩
  | dot hat | up hat | link hat | entry hat => exact ⟨_, hat⟩

/-- There is no directory at a file or below it. -/
theorem not_prefix_of_isFile {file : List String}
    (hfile : ∀ node, root.at? file = some node → node.isFile = true)
    (hat : root.at? here = some (.directory entries)) : ¬ file <+: here := by
  rintro ⟨rest, rfl⟩
  rw [at?_append, Option.bind_eq_some_iff] at hat
  obtain ⟨node, hnode, hat⟩ := hat
  cases node with
  | file content => cases rest <;> cases hat
  | directory _ | link _ => cases hfile _ hnode

section Edit

variable {name other : String} (hedit : Edit name place root root')
  (hfile : ∀ node, root.at? (place ++ [name]) = some node → node.isFile = true)
include hedit hfile

/-- A link stays when an entry changes that is neither a directory nor a link. -/
theorem Edit.exists_link {target : String} (hat : root.at? here = some (.directory entries))
    (hentry : OrderedMap.lookup? other entries = some (.link target)) :
    ∃ entries', root'.at? here = some (.directory entries') ∧
      OrderedMap.lookup? other entries' = some (.link target) := by
  obtain ⟨entries', hat', hlinks⟩ := hedit.at?_directory hat (not_prefix_of_isFile hfile hat)
  -- the entry is a link, so it is not the changed one
  have hother : here ≠ place ∨ other ≠ name := by
    rw [← not_and_or]
    rintro ⟨rfl, rfl⟩
    cases hfile _ ((at?_entry hat other).trans hentry)
  have hentry' := hlinks other hother
  rw [hentry] at hentry'
  obtain ⟨node, hnode, htarget⟩ := Option.map_eq_some_iff.mp hentry'
  cases node with
  | link target' =>
    obtain rfl : target' = target := Option.some.inj htarget
    exact ⟨entries', hat', hnode⟩
  | file _ | directory _ => cases htarget

/-- Any other entry stays, and does not become a link. -/
theorem Edit.exists_entry {node : FileTree} (hat : root.at? here = some (.directory entries))
    (hother : here ≠ place ∨ other ≠ name)
    (hentry : OrderedMap.lookup? other entries = some node) (hnode : node.target? = none) :
    ∃ entries' node', root'.at? here = some (.directory entries') ∧
      OrderedMap.lookup? other entries' = some node' ∧ node'.target? = none := by
  obtain ⟨entries', hat', hlinks⟩ := hedit.at?_directory hat (not_prefix_of_isFile hfile hat)
  have hentry' := hlinks other hother
  rw [hentry] at hentry'
  obtain ⟨node', hnode', htarget⟩ := Option.map_eq_some_iff.mp hentry'
  exact ⟨entries', node', hat', hnode', htarget.trans hnode⟩

/-- A walk to a directory is one after a change of an entry that is neither a directory
nor a link. -/
theorem Walk.edit {names there : List String} {left : Nat}
    (h : Walk root links here names left there)
    (hthere : root.at? there = some (.directory entries)) :
    Walk root' links here names left there := by
  induction h with
  | done => exact .done
  | dot hat _ ih =>
    obtain ⟨entries', hat', -⟩ := hedit.at?_directory hat (not_prefix_of_isFile hfile hat)
    exact .dot hat' (ih hthere)
  | up hat hhere _ ih =>
    obtain ⟨entries', hat', -⟩ := hedit.at?_directory hat (not_prefix_of_isFile hfile hat)
    exact .up hat' hhere (ih hthere)
  | link hat hdot hdots hentry htarget _ ih =>
    obtain ⟨entries', hat', hentry'⟩ := hedit.exists_link hfile hat hentry
    exact .link hat' hdot hdots hentry' htarget (ih hthere)
  | @entry _ _ here _ _ _ other _ hat hdot hdots hentry hnode hwalk ih =>
    obtain ⟨below, hbelow⟩ := hwalk.start hthere
    -- the walk goes on in the entry, so it is a directory and not the changed one
    have hother : here ≠ place ∨ other ≠ name := by
      rw [← not_and_or]
      rintro ⟨rfl, rfl⟩
      cases hfile _ hbelow
    obtain ⟨entries', node', hat', hentry', hnode'⟩ :=
      hedit.exists_entry hfile hat hother hentry hnode
    exact .entry hat' hdot hdots hentry' hnode' (ih hthere)

end Edit

end FileTree

end Checkup
