import Checkup.Proofs.Writing

/-!
# Dots along a path

The parent of a path is written without the dots in it, and leads to the same directory:

* `Path.exists_parent_join` — the names along the parent of a path into a directory.
* `FileTree.follow_dot_iff` — a dot before more names, or behind a directory, does not count.
* `FileTree.makeDirectories?_parent` — the directories that are made for a path.
-/

namespace Checkup

namespace Path

open Text (pieces pieces_intercalate notMem_of_mem_pieces)

/-! ## The names along a parent -/

/-- A path that is not absolute starts with a name. -/
theorem exists_pieces {path : String} (hne : path ≠ "") (hrel : isAbsolute path = false) :
    ∃ first rest, pieces '/' path.toList = first :: rest ∧ first ≠ [] := by
  obtain ⟨c, cs, hcs⟩ := List.exists_cons_of_ne_nil fun h => hne (String.toList_eq_nil_iff.mp h)
  have hc : c ≠ '/' := by simpa [isAbsolute, hcs] using hrel
  rw [hcs, pieces, if_neg hc]
  split
  · exact ⟨_, _, rfl, List.cons_ne_nil _ _⟩
  · exact ⟨_, _, rfl, List.cons_ne_nil _ _⟩

/-- A path with a component before the last one has a parent. -/
theorem parent?_of_components {path first last : String} {inner : List String}
    (h : components path = first :: (inner ++ [last])) (hfirst : first ≠ "/") :
    parent? path = some ("/".intercalate (first :: inner)) := by
  rw [parent?, h]
  split
  · rename_i heq
    cases heq
  · rename_i heq
    exact absurd (List.cons.inj heq).1 hfirst
  · rename_i heq
    exact absurd (List.cons.inj heq).1 hfirst
  · rw [← List.cons_append, List.dropLast_concat]

theorem relative_of_pieces {path : String} {first : List Char} {rest : List (List Char)}
    (h : pieces '/' path.toList = first :: rest) (hfirst : first ≠ []) :
    path ≠ "" ∧ isAbsolute path = false := by
  constructor
  · rintro rfl
    exact hfirst (List.cons.inj h).1.symm
  · rw [isAbsolute, decide_eq_false_iff_not]
    intro hhead
    obtain ⟨cs, hcs⟩ : ∃ cs, path.toList = '/' :: cs := List.head?_eq_some_iff.mp hhead
    rw [hcs, pieces, if_pos rfl] at h
    exact hfirst (List.cons.inj h).1.symm

section Join

variable {dir name : String} (hdir : dir ≠ "") (hlast : dir.toList.getLast? ≠ some '/')
  (hname : IsName name)
include hdir hlast hname

/-- The parent of a path into a directory has the pieces of the directory that count. -/
theorem exists_pieces_parent {first : List Char} {rest : List (List Char)}
    (hpieces : pieces '/' dir.toList = first :: rest) (hfirst : first ≠ []) :
    ∃ parent, parent? (join dir name) = some parent ∧
      pieces '/' parent.toList = first :: rest.filter isSignificant := by
  have hslash : ∀ piece ∈ first :: rest, '/' ∉ piece := fun piece hp =>
    notMem_of_mem_pieces (hpieces ▸ hp)
  have hsignificant : isSignificant name.toList = true := by
    rw [isSignificant_iff, String.ofList_toList]
    exact ⟨fun h => hname.ne_empty (String.toList_eq_nil_iff.mp h), hname.ne_dot⟩
  have hcomponents : components (join dir name) =
      String.ofList first :: ((rest.filter isSignificant).map String.ofList ++ [name]) := by
    simp [components, pieces_join hdir hlast hname, hpieces, hfirst, hsignificant]
  have hroot : String.ofList first ≠ "/" := by
    intro h
    rw [← String.toList_inj, String.toList_ofList] at h
    exact hslash first List.mem_cons_self (h ▸ List.mem_singleton_self '/')
  refine ⟨_, parent?_of_components hcomponents hroot, ?_⟩
  have hparts : (String.ofList first :: (rest.filter isSignificant).map String.ofList).map
      String.toList = first :: rest.filter isSignificant := by
    simp [Function.comp_def]
  rw [String.toList_intercalate, hparts]
  exact pieces_intercalate (List.cons_ne_nil _ _) fun piece hp =>
    hslash piece ((List.filter_sublist.cons_cons first).mem hp)

/-- The parent of a path into a directory leads along the same names, but for dots. -/
theorem exists_parent_join (hrel : isAbsolute dir = false) :
    ∃ parent first rest, parent? (join dir name) = some parent ∧ parent ≠ "" ∧
      isAbsolute parent = false ∧ names dir = first :: rest ∧
      names parent = first :: rest.filter (· ≠ ".") := by
  obtain ⟨first, more, hpieces, hfirst⟩ := exists_pieces hdir hrel
  obtain ⟨parent, hparent, hparts⟩ := exists_pieces_parent hdir hlast hname hpieces hfirst
  obtain ⟨hne, habsolute⟩ := relative_of_pieces hparts hfirst
  refine ⟨parent, String.ofList first, (more.filter (· ≠ [])).map String.ofList, hparent, hne,
    habsolute, ?_, ?_⟩
  · rw [names_eq_of_pieces (getLast?_pieces hdir hlast)]
    simp [hpieces, hfirst]
  · have hsame : (more.filter isSignificant).filter (· ≠ []) =
        (more.filter (· ≠ [])).filter ((· ≠ ".") ∘ String.ofList) := by
      rw [List.filter_filter, List.filter_filter]
      refine List.filter_congr fun piece _ => ?_
      rw [Bool.eq_iff_iff]
      simp [isSignificant_iff, and_comm]
    have hlast' : (pieces '/' parent.toList).getLast? ≠ some [] := by
      intro h
      rw [hparts] at h
      rcases List.mem_cons.mp (List.mem_of_getLast? h) with h | h
      · exact hfirst h.symm
      · exact (isSignificant_iff.mp (List.mem_filter.mp h).2).1 rfl
    rw [names_eq_of_pieces hlast', hparts, List.filter_cons_of_pos (by simpa using hfirst), hsame,
      List.map_cons, List.filter_map]

end Join

end Path

namespace FileTree

variable {root root' : FileTree} {links : Nat} {here names before before' : List String}
  {found : Place}

/-! ## Following dots -/

/-- What more names may follow: there are some, or it is a directory. -/
def GoesOn (rest : List String) (found : Place) : Prop :=
  rest ≠ [] ∨ ∃ place entries, found = .present place (.directory entries)

/-- Following that goes on does so from a directory. -/
theorem exists_at?_of_goesOn (h : root.follow links here names = some found)
    (hnames : GoesOn names found) : ∃ entries, root.at? here = some (.directory entries) := by
  rcases hnames with hne | ⟨place, entries, rfl⟩
  · exact exists_at?_of_follow hne h
  · exact exists_at?_of_follow_directory h

/-- A dot before more names, or behind a directory, does not count. -/
theorem follow_dot_iff {rest : List String} (hrest : GoesOn rest found) :
    root.follow links here (before ++ "." :: rest) = some found ↔
      root.follow links here (before ++ rest) = some found := by
  have hstay : ∀ {links here entries}, root.at? here = some (.directory entries) →
      root.follow links here ("." :: rest) = root.follow links here rest := by
    intro links here entries hat
    rw [follow, hat]
    simp
  constructor
  · intro h
    obtain ⟨left, there, hwalk, hfound⟩ := exists_walk h (.inl (List.cons_ne_nil _ _))
    obtain ⟨entries, hat⟩ := exists_at?_of_follow (List.cons_ne_nil _ _) hfound
    rw [hwalk.follow_append, ← hstay hat, hfound]
  · intro h
    have hends : rest ≠ [] ∨ ∃ place node, found = .present place node := by
      refine hrest.imp_right ?_
      rintro ⟨place, entries, hfound⟩
      exact ⟨place, _, hfound⟩
    obtain ⟨left, there, hwalk, hfound⟩ := exists_walk h hends
    obtain ⟨entries, hat⟩ := exists_at?_of_goesOn hfound hrest
    rw [hwalk.follow_append, hstay hat, hfound]

/-! ## Making directories -/

/-- Names that lead the same way in every tree, as far as it goes on. -/
def Alike (before before' : List String) : Prop :=
  ∀ (root : FileTree) (rest : List String) (found : Place), GoesOn rest found →
    (root.follow linkLimit [] (before ++ rest) = some found ↔
      root.follow linkLimit [] (before' ++ rest) = some found)

namespace Alike

theorem refl (names : List String) : Alike names names := fun _ _ _ _ => .rfl

theorem dot (h : Alike before before') : Alike (before ++ ["."]) before' := by
  intro root rest found hrest
  rw [List.append_assoc, List.singleton_append, follow_dot_iff hrest, h root rest found hrest]

theorem concat (h : Alike before before') (name : String) :
    Alike (before ++ [name]) (before' ++ [name]) := by
  intro root rest found _
  rw [List.append_assoc, List.append_assoc]
  exact h root _ found (.inl (List.cons_ne_nil _ _))

/-- One directory is made in the same way. -/
theorem makeDirectory?_eq (h : Alike before before') (root : FileTree) (name : String) :
    root.makeDirectory? before name = root.makeDirectory? before' name := by
  have hname : root.follow linkLimit [] (before ++ [name]) =
      root.follow linkLimit [] (before' ++ [name]) :=
    Option.ext fun found => h root [name] found (.inl (List.cons_ne_nil _ _))
  have hdirectory : ∀ place entries,
      root.follow linkLimit [] before = some (.present place (.directory entries)) ↔
        root.follow linkLimit [] before' = some (.present place (.directory entries)) := by
    intro place entries
    simpa using h root [] (.present place (.directory entries)) (.inr ⟨place, entries, rfl⟩)
  rw [makeDirectory?, makeDirectory?, hname]
  split
  · rfl
  · rfl
  · split
    · rename_i hbefore
      rw [(hdirectory _ _).mp hbefore]
    · rename_i hbefore
      split
      · rename_i hbefore'
        exact absurd ((hdirectory _ _).mpr hbefore') (hbefore _ _)
      · rfl

end Alike

/-- A directory is not made by a dot. -/
theorem eq_of_makeDirectory?_dot (h : root.makeDirectory? before "." = some root') :
    root' = root := by
  rw [makeDirectory?] at h
  split at h
  · cases h
    rfl
  · cases h
  · rename_i hfound _
    split at h
    · rename_i place entries hbefore
      rw [← List.append_nil before] at hbefore
      exact absurd ((follow_dot_iff (.inr ⟨place, entries, rfl⟩)).mpr hbefore) (hfound _ _)
    · cases h

/-- What is made along names is made without dots. -/
theorem makeDirectoriesAlong_filter {rest : List String} (h : Alike before before')
    (hmade : makeDirectoriesAlong before rest root = some root') :
    makeDirectoriesAlong before' (rest.filter (· ≠ ".")) root = some root' := by
  induction rest generalizing before before' root with
  | nil => exact hmade
  | cons name rest ih =>
    obtain ⟨made, hname, hrest⟩ := Option.bind_eq_some_iff.mp hmade
    by_cases hdot : name = "."
    · subst hdot
      obtain rfl := eq_of_makeDirectory?_dot hname
      simpa using ih h.dot hrest
    · have hrest' := ih (h.concat name) hrest
      rw [h.makeDirectory?_eq] at hname
      rw [List.filter_cons_of_pos (by simpa using hdot), makeDirectoriesAlong, hname]
      exact hrest'

/-- The directories that lead to a path into a directory are those that lead to the latter. -/
theorem makeDirectories?_parent {dir name : String} (hdir : dir ≠ "")
    (hlast : dir.toList.getLast? ≠ some '/') (hname : Path.IsName name)
    (hmade : root.makeDirectories? dir = some root') :
    ((Path.parent? (Path.join dir name)).map root.makeDirectories?).getD (some root) =
      some root' := by
  rw [makeDirectories?, if_neg hdir] at hmade
  split at hmade
  · cases hmade
  · rename_i habsolute
    obtain ⟨parent, first, rest, hparent, hne, hrel, hnames, hnames'⟩ :=
      Path.exists_parent_join hdir hlast hname (by simpa using habsolute)
    rw [hnames] at hmade
    obtain ⟨made, hfirst, hrest⟩ := Option.bind_eq_some_iff.mp hmade
    rw [hparent, Option.map_some, Option.getD_some, makeDirectories?, if_neg hne,
      if_neg (by simp [hrel]), hnames', makeDirectoriesAlong, hfirst]
    exact makeDirectoriesAlong_filter (.refl _) hrest

end FileTree

end Checkup
