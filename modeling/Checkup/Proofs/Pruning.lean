import Checkup.Proofs.Maps
import Checkup.Proofs.Saving
import Mathlib.Order.Bounds.Basic

/-!
# Every save leaves the newest

A directory of files, with any names, before and after a save:

* `History.Finds.isLeast_freeStamp` — the second that is given is the first free one.
* `History.Updated` — what a save makes of the entries: the new one is added, and the newest
  with a stamp stay as they are, up to the limit, like all without a stamp.
* `History.Finds.exists_save` — every save does that.
* `History.save_leaves_newest` — the same, for every moment.
-/

namespace Checkup

namespace Calendar

/-- The year of a day is one of the four hundred of its cycle, or the next one. -/
theorem year_dateOfDay (day : Int) :
    (day + daysBefore1970) / cycleDays * 400 ≤ (dateOfDay day).1 ∧
      (dateOfDay day).1 ≤ (day + daysBefore1970) / cycleDays * 400 + 401 := by
  have hyear : yearOfCycle ((day + daysBefore1970) % cycleDays).toNat ≤ 400 := by
    rw [yearOfCycle, cycleDays]
    omega
  simp only [dateOfDay]
  generalize yearOfCycle ((day + daysBefore1970) % cycleDays).toNat = year at hyear ⊢
  split <;> omega

/-- Moments are seconds far from those that 64 bits do not hold. -/
theorem lt_of_isSome_ofSeconds? {seconds : Int} (h : (ofSeconds? seconds).isSome = true) :
    -2 ^ 62 < seconds ∧ seconds < 2 ^ 62 := by
  have hyears : years.1 ≤ (dateOfDay (seconds / daySeconds)).1 ∧
      (dateOfDay (seconds / daySeconds)).1 ≤ years.2 := by
    by_contra hno
    rw [ofSeconds?] at h
    dsimp only at h
    rw [if_neg hno] at h
    cases h
  have hcycle := year_dateOfDay (seconds / daySeconds)
  generalize (dateOfDay (seconds / daySeconds)).1 = year at hyears hcycle
  simp only [years, daysBefore1970, cycleDays, daySeconds] at hyears hcycle
  omega

/-- So many seconds from a moment on are seconds of 64 bits. -/
theorem fitsSigned64_of_moment {first seconds : Int} (h : (ofSeconds? first).isSome = true)
    (hfrom : first ≤ seconds) (hto : seconds ≤ first + 2 ^ 62) :
    Text.fitsSigned64 seconds = true := by
  obtain ⟨hlow, hhigh⟩ := lt_of_isSome_ofSeconds? h
  rw [Text.fitsSigned64_iff]
  omega

end Calendar

namespace History

variable {h : History} {files : FileTree} {entries : List (String × FileTree)} {first : Int}

/-! ## The first free second -/

/-- One of more seconds than there are names has a name of its own. -/
theorem exists_nameOf_notMem (names : List String) (first : Int) :
    ∃ n ≤ names.length, nameOf (first + n) ∉ names := by
  by_contra hall
  push Not at hall
  have hnodup : ((List.range (names.length + 1)).map fun n : Nat =>
      nameOf (first + n)).Nodup := by
    refine List.nodup_range.map fun m n heq => ?_
    have := nameOf_injective heq
    omega
  have hsubset : (List.range (names.length + 1)).map (fun n : Nat => nameOf (first + n)) ⊆
      names := by
    intro name hname
    obtain ⟨n, hn, rfl⟩ := List.mem_map.mp hname
    exact hall n (Nat.le_of_lt_succ (List.mem_range.mp hn))
  have hlength := (hnodup.subperm hsubset).length_le
  simp at hlength

namespace Finds

variable (hfinds : h.Finds files entries) (hlast : h.directory.toList.getLast? ≠ some '/')
  (hfiles : ∀ entry ∈ entries, entry.2.isFile = true)
include hfinds hlast hfiles

/-- A second is taken just if the directory has its name. -/
theorem hasPath_iff (stamp : Int) :
    files.hasPath (h.pathOf (nameOf stamp)) = true ↔ nameOf stamp ∈ entries.map Prod.fst := by
  have hname := isName_nameOf stamp
  rcases hfinds.there_or_new with hlist | ⟨hnone, rfl⟩
  · have hlink : (OrderedMap.lookup? (nameOf stamp) entries).bind FileTree.target? = none := by
      cases hentry : OrderedMap.lookup? (nameOf stamp) entries with
      | none => rfl
      | some node =>
        have hfile := hfiles _ (OrderedMap.mem_of_lookup?_eq_some hentry)
        cases node with
        | link target => cases hfile
        | file _ | directory _ => rfl
    rw [FileTree.hasPath, pathOf, FileTree.get?_join hlist hlast hname hlink,
      Option.isSome_iff_ne_none, ne_eq, OrderedMap.lookup?_eq_none_iff, not_not]
  · -- a path into a directory that is not there leads nowhere
    refine iff_of_false (fun hpath => ?_) (List.not_mem_nil)
    obtain ⟨made, -, hlist⟩ := hfinds.made
    obtain ⟨hne, hrel, -⟩ := FileTree.list?_eq_some_iff.mp hlist
    obtain ⟨found, hfound⟩ : ∃ found, files.locate (h.pathOf (nameOf stamp)) = some found := by
      rw [← Option.isSome_iff_exists, Option.isSome_iff_ne_none]
      intro hlocate
      simp [FileTree.hasPath, FileTree.get?, hlocate] at hpath
    obtain ⟨es, hes⟩ := FileTree.exists_list?_of_locate hlast hne hrel hname hfound
    rw [hnone] at hes
    cases hes

/-- **The second that is given** is the first one, from the asked one on, whose name is free;
and there are no more seconds between them than there are names. -/
theorem isLeast_freeStamp (first : Int) :
    IsLeast {s | first ≤ s ∧ nameOf s ∉ entries.map Prod.fst} (h.freeStamp files first) ∧
      h.freeStamp files first ≤ first + entries.length := by
  have hcount : ((files.list? h.directory).getD []).length = entries.length := by
    rcases hfinds.there_or_new with hlist | ⟨hnone, rfl⟩
    · rw [hlist]
      rfl
    · rw [hnone]
      rfl
  have hfree : ∀ s, files.hasPath (h.pathOf (nameOf s)) = false ↔
      nameOf s ∉ entries.map Prod.fst := fun s => by
    rw [← hfinds.hasPath_iff hlast hfiles s, Bool.not_eq_true]
  obtain ⟨n, hn, hfirst⟩ := exists_nameOf_notMem (entries.map Prod.fst) first
  rw [List.length_map] at hn
  -- the search finds one of the seconds that it looks at
  obtain ⟨s, hs⟩ : ∃ s, ((List.range (entries.length + 1)).map fun n : Nat =>
      first + Int.ofNat n).find? (fun s => !files.hasPath (h.pathOf (nameOf s))) = some s := by
    rw [← Option.isSome_iff_exists, List.find?_isSome]
    refine ⟨first + n, List.mem_map.mpr ⟨n, List.mem_range.mpr (Nat.lt_succ_of_le hn), rfl⟩, ?_⟩
    simpa using (hfree (first + n)).mpr hfirst
  have hstamp : h.freeStamp files first = s := by
    simp only [freeStamp, hcount, hs, Option.getD_some]
  rw [hstamp]
  obtain ⟨hpath, i, hi, hget, hbefore⟩ := List.find?_eq_some_iff_getElem.mp hs
  simp only [List.length_map, List.length_range] at hi
  simp only [List.getElem_map, List.getElem_range, Int.ofNat_eq_natCast] at hget hbefore
  refine ⟨⟨⟨by omega, (hfree s).mp (by simpa using hpath)⟩, ?_⟩, by omega⟩
  rintro t ⟨ht, hnew⟩
  by_contra hlt
  have htaken := hbefore (t - first).toNat (by omega)
  have hback : first + ((t - first).toNat : Int) = t := by omega
  rw [hback, (hfree t).mpr hnew] at htaken
  cases htaken

end Finds

/-! ## The entries after a save -/

/-- What a save in a second makes of the entries of a directory. -/
structure Updated (h : History) (e : Evaluation) (stamp : Int)
    (before after : List (String × FileTree)) : Prop where
  /-- there are still only files -/
  files : ∀ entry ∈ after, entry.2.isFile = true
  /-- the newest with a stamp are listed, up to the limit, the new one among them all -/
  names : stampedNames (after.map Prod.fst) =
    (stampedNames (before.map Prod.fst ++ [nameOf stamp])).take h.limit
  /-- those and the ones without a stamp hold what they held, and the new one the evaluation -/
  content : ∀ name, OrderedMap.lookup? name after =
    if (stamp? name).isSome = true ∧
        name ∉ (stampedNames (before.map Prod.fst ++ [nameOf stamp])).take h.limit then none
    else if name = nameOf stamp then some (.file e.toText.toUTF8)
    else OrderedMap.lookup? name before

/-- What is listed after a save was there before, or is new. -/
theorem Updated.lookup?_of_listed {e : Evaluation} {stamp : Int}
    {before after : List (String × FileTree)} (hupdated : h.Updated e stamp before after)
    {name : String} (hname : name ∈ stampedNames (after.map Prod.fst)) :
    OrderedMap.lookup? name after =
      if name = nameOf stamp then some (.file e.toText.toUTF8)
      else OrderedMap.lookup? name before := by
  rw [hupdated.names] at hname
  rw [hupdated.content, if_neg fun hgone => hgone.2 hname]

/-- Without directories, removing names leaves the entries of all others. -/
theorem without_eq (hfiles : ∀ entry ∈ entries, entry.2.isFile = true) (names : List String) :
    without names entries = entries.filter fun entry => entry.1 ∉ names := by
  refine List.filter_congr fun entry hentry => ?_
  obtain ⟨name, node⟩ := entry
  have hfile := hfiles _ hentry
  cases node with
  | file content => simp [FileTree.isDirectory]
  | directory _ | link _ => cases hfile

/-- After removing names, the entries of all others are looked up as before. -/
theorem lookup?_filter_notMem (names : List String) (name : String)
    (entries : List (String × FileTree)) :
    OrderedMap.lookup? name (entries.filter fun entry => entry.1 ∉ names) =
      if name ∈ names then none else OrderedMap.lookup? name entries := by
  rw [OrderedMap.lookup?_filter fun key => decide (key ∉ names)]
  by_cases hname : name ∈ names <;> simp [hname]

/-- A name is listed beyond the limit just if it has a stamp and is not among the first. -/
theorem mem_drop_stampedNames_iff {names : List String} (hnodup : names.Nodup) {name : String}
    (hname : name ∈ names) (limit : Nat) :
    name ∈ (stampedNames names).drop limit ↔
      (stamp? name).isSome = true ∧ name ∉ (stampedNames names).take limit := by
  constructor
  · intro hdrop
    have hlisted := List.mem_of_mem_drop hdrop
    refine ⟨(mem_stampedNames.mp hlisted).2, fun htake => ?_⟩
    exact (notMem_drop_iff (nodup_stampedNames hnodup) hlisted limit).mpr htake hdrop
  · rintro ⟨hstamp, htake⟩
    have hlisted := mem_stampedNames.mpr ⟨hname, hstamp⟩
    by_contra hdrop
    exact htake ((notMem_drop_iff (nodup_stampedNames hnodup) hlisted limit).mp hdrop)

/-- What is left of a listing is its first part. -/
theorem stampedNames_filter_drop {names : List String} (hnodup : names.Nodup) (limit : Nat) :
    stampedNames (names.filter fun name => name ∉ (stampedNames names).drop limit) =
      (stampedNames names).take limit := by
  refine stampedNames_eq (hnodup.filter _) ?_ fun name => ?_
  · exact (pairwise_stampedNames hnodup).sublist (List.take_sublist limit _)
  · rw [List.mem_filter, decide_eq_true_iff]
    constructor
    · intro htake
      obtain ⟨hname, hstamp⟩ := mem_stampedNames.mp (List.mem_of_mem_take htake)
      refine ⟨⟨hname, fun hdrop => ?_⟩, hstamp⟩
      exact ((mem_drop_stampedNames_iff hnodup hname limit).mp hdrop).2 htake
    · rintro ⟨⟨hname, hkept⟩, hstamp⟩
      by_contra htake
      exact hkept ((mem_drop_stampedNames_iff hnodup hname limit).mpr ⟨hstamp, htake⟩)

/-- A new file, and what is listed beyond the limit then removed. -/
theorem updated_without {e : Evaluation} {stamp : Int} (hproper : FileTree.ProperNames entries)
    (hfiles : ∀ entry ∈ entries, entry.2.isFile = true)
    (hfree : nameOf stamp ∉ entries.map Prod.fst) :
    h.Updated e stamp entries
      (without ((stampedNames (entries.map Prod.fst ++ [nameOf stamp])).drop h.limit)
        (entries ++ [(nameOf stamp, .file e.toText.toUTF8)])) := by
  have hstore : OrderedMap.store (nameOf stamp) (FileTree.file e.toText.toUTF8) entries =
      entries ++ [(nameOf stamp, .file e.toText.toUTF8)] := OrderedMap.store_of_new hfree
  have hnames : (entries ++ [(nameOf stamp, FileTree.file e.toText.toUTF8)]).map Prod.fst =
      entries.map Prod.fst ++ [nameOf stamp] := by simp
  have hproper' := hproper.store (no_slash_nameOf stamp) (.file e.toText.toUTF8)
  rw [hstore] at hproper'
  have hnodup := hproper'.nodup
  rw [hnames] at hnodup
  have hfiles' : ∀ entry ∈ entries ++ [(nameOf stamp, FileTree.file e.toText.toUTF8)],
      entry.2.isFile = true := by
    intro entry hentry
    rcases List.mem_append.mp hentry with hentry | hentry
    · exact hfiles entry hentry
    · rw [List.mem_singleton.mp hentry]
      rfl
  rw [without_eq hfiles']
  refine ⟨?_, ?_, fun name => ?_⟩
  · exact fun entry hentry => hfiles' entry (List.mem_filter.mp hentry).1
  · rw [← stampedNames_filter_drop hnodup, ← hnames, List.filter_map]
    rfl
  · have hlookup := OrderedMap.lookup?_store (nameOf stamp) name
      (FileTree.file e.toText.toUTF8) entries
    rw [hstore] at hlookup
    rw [lookup?_filter_notMem, hlookup]
    -- a name of the directory is removed just if it is listed, and not among the first
    by_cases hname : name ∈ entries.map Prod.fst ++ [nameOf stamp]
    · have hgone := mem_drop_stampedNames_iff hnodup hname h.limit
      simp only [hgone, eq_comm]
    · have hnone : OrderedMap.lookup? name entries = none :=
        OrderedMap.lookup?_eq_none_iff.mpr fun hmem => hname (List.mem_append_left _ hmem)
      have hother : name ≠ nameOf stamp := by
        rintro rfl
        exact hname (List.mem_append_right _ (List.mem_singleton_self _))
      simp [hnone, hother, Ne.symm hother]

/-- **Every save** succeeds where there are only files, and leaves the newest. -/
theorem Finds.exists_save {e : Evaluation} (hfinds : h.Finds files entries)
    (hlast : h.directory.toList.getLast? ≠ some '/') (hvalid : files.Valid)
    (hfiles : ∀ entry ∈ entries, entry.2.isFile = true)
    (hfits : Text.fitsSigned64 (h.freeStamp files first) = true) :
    ∃ files' after,
      h.save files e first = .ok (h.pathOf (nameOf (h.freeStamp files first)), files') ∧
      files'.Valid ∧ files'.list? h.directory = some after ∧
      h.Updated e (h.freeStamp files first) entries after := by
  obtain ⟨made, hmade, hlist⟩ := hfinds.made
  obtain ⟨hne, -⟩ := FileTree.list?_eq_some_iff.mp hlist
  obtain ⟨⟨⟨-, hfree⟩, -⟩, -⟩ := hfinds.isLeast_freeStamp hlast hfiles first
  have hlinks : ∀ entry ∈ entries, (stamp? entry.1).isSome = true → entry.2.target? = none := by
    intro entry hentry _
    have hfile := hfiles entry hentry
    obtain ⟨name, node⟩ := entry
    cases node with
    | link target => cases hfile
    | file _ | directory _ => rfl
  obtain ⟨path, files', hs⟩ := History.exists_save e hlast hfinds hvalid hlinks
    (OrderedMap.lookup?_eq_none_iff.mpr hfree)
  obtain ⟨rfl, -⟩ := save_eq_ok hs
  have hproper : FileTree.ProperNames entries := hfinds.stored_eq ▸ properNames_stored hvalid
  have hafter := list?_of_save hne hlast hvalid (hfinds.stored_eq.symm ▸ hlinks) hfits hs
  rw [leftBySave, storedWith, hfinds.stored_eq, OrderedMap.store_of_new hfree,
    List.map_append, List.map_singleton] at hafter
  exact ⟨files', _, hs, valid_of_save hvalid hs, hafter, updated_without hproper hfiles hfree⟩

/-! ## Every moment -/

/-- **A save leaves the newest**, whatever files there are and however many are to be kept.
The new file has the first second, from the moment of the save on, whose name is free. Of
all stamped files, newest first and the new one among them, as many are left as are to be
kept. They hold what they held, like all without a stamp, and the new one the evaluation. The
workspace is one of the tree, since nothing is found at a path that leaves it. -/
theorem save_leaves_newest {workspace : String} {size : Nat} (e : Evaluation) (first : Int)
    (hvalid : files.Valid) (hfinds : (ofWorkspace workspace size).Finds files entries)
    (hfiles : ∀ entry ∈ entries, entry.2.isFile = true)
    (hmoment : (Calendar.ofSeconds? first).isSome = true) (hcount : entries.length < 2 ^ 62) :
    let h := ofWorkspace workspace size
    ∃ (stamp : Int) (newest : List String) (files' : FileTree) (left : List (String × FileTree)),
      IsLeast {s | first ≤ s ∧ nameOf s ∉ entries.map Prod.fst} stamp ∧
      h.save files e first = .ok (h.pathOf (nameOf stamp), files') ∧
      newest.Pairwise Newer ∧
      (∀ name, name ∈ newest ↔
        name = nameOf stamp ∨ name ∈ entries.map Prod.fst ∧ (stamp? name).isSome = true) ∧
      h.list files' = .ok ((newest.take (max size 1)).map h.pathOf) ∧
      files'.list? h.directory = some left ∧
      ∀ name, OrderedMap.lookup? name left =
        if (stamp? name).isSome = true ∧ name ∉ newest.take (max size 1) then none
        else if name = nameOf stamp then some (.file e.toText.toUTF8)
        else OrderedMap.lookup? name entries := by
  obtain ⟨-, hlast⟩ := directory_ofWorkspace workspace size
  have hlimit : (ofWorkspace workspace size).limit = max size 1 := rfl
  rw [← hlimit]
  generalize ofWorkspace workspace size = h at *
  intro h
  obtain ⟨hleast, hle⟩ := hfinds.isLeast_freeStamp hlast hfiles first
  have hfits := Calendar.fitsSigned64_of_moment hmoment hleast.1.1 (by omega)
  obtain ⟨files', left, hs, -, hleft, hupdated⟩ :=
    hfinds.exists_save (e := e) hlast hvalid hfiles hfits
  have hproper : FileTree.ProperNames entries := hfinds.stored_eq ▸ properNames_stored hvalid
  have hnodup := hproper.nodup.concat hleast.1.2
  rw [List.concat_eq_append] at hnodup
  refine ⟨h.freeStamp files first, _, files', left, hleast, hs,
    pairwise_stampedNames hnodup, fun name => ?_, ?_, hleft, hupdated.content⟩
  · rw [mem_stampedNames, List.mem_append, List.mem_singleton, or_comm, or_and_right]
    refine or_congr_left (and_iff_left_of_imp ?_)
    rintro rfl
    rw [stamp?_nameOf hfits]
    rfl
  · rw [list_eq hleft, hupdated.names]

/-- Three stored evaluations, two of them with the same stamp, and a file without one. -/
def spellings : List (String × FileTree) :=
  [("evaluation-5.json", .file .empty), ("notes.txt", .file "mine".toUTF8),
    ("evaluation--3.json", .file .empty), ("evaluation-05.json", .file .empty)]

theorem valid_spellings : (workspaceOf spellings).Valid :=
  valid_workspaceOf (FileTree.valid_of_files ⟨by decide, by decide⟩ (by decide))

/-- Of these, a save that keeps two leaves the newest one only, and the other file. -/
theorem save_leaves_newest_spellings :
    ∃ newest files' left,
      (ofWorkspace "." 2).save (workspaceOf spellings) passed 5 =
        .ok ((ofWorkspace "." 2).pathOf "evaluation-6.json", files') ∧
      newest = ["evaluation-6.json", "evaluation-5.json", "evaluation-05.json",
        "evaluation--3.json"] ∧
      (ofWorkspace "." 2).list files' = .ok ((newest.take 2).map (ofWorkspace "." 2).pathOf) ∧
      files'.list? (ofWorkspace "." 2).directory = some left ∧
      OrderedMap.lookup? "evaluation-6.json" left = some (.file passed.toText.toUTF8) ∧
      OrderedMap.lookup? "evaluation-5.json" left = some (.file .empty) ∧
      OrderedMap.lookup? "evaluation-05.json" left = none ∧
      OrderedMap.lookup? "notes.txt" left = some (.file "mine".toUTF8) := by
  obtain ⟨stamp, newest, files', left, hleast, hs, hsorted, hnames, hlisted, hleft, hcontent⟩ :=
    save_leaves_newest passed 5 valid_spellings (.of_list? (list?_workspaceOf 2 spellings))
      (by decide) (by decide +kernel) (by decide)
  -- only the first of the seconds is taken
  obtain rfl : stamp = 6 := by
    refine hleast.unique ⟨⟨by decide, by decide +kernel⟩, fun t ht => ?_⟩
    have hne : t ≠ 5 := by
      rintro rfl
      exact ht.2 (by decide +kernel)
    have := ht.1
    omega
  have hname : nameOf 6 = "evaluation-6.json" := by decide +kernel
  obtain rfl : newest = ["evaluation-6.json", "evaluation-5.json", "evaluation-05.json",
      "evaluation--3.json"] := by
    refine hsorted.eq_of_mem_iff (by decide +kernel) fun name => (hnames name).trans ?_
    have hstamped : name ∈ spellings.map Prod.fst ∧ (stamp? name).isSome = true ↔
        name ∈ ["evaluation-5.json", "evaluation--3.json", "evaluation-05.json"] := by
      have hfilter : (spellings.map Prod.fst).filter (fun name => (stamp? name).isSome) =
          ["evaluation-5.json", "evaluation--3.json", "evaluation-05.json"] := by
        decide +kernel
      rw [← hfilter, List.mem_filter]
    rw [hstamped, hname]
    simp only [List.mem_cons, List.not_mem_nil, or_false]
    tauto
  rw [hname] at hs hcontent
  refine ⟨_, files', left, hs, rfl, hlisted, hleft, ?_, ?_, ?_, ?_⟩ <;> rw [hcontent]
  · rw [if_neg (by decide), if_pos rfl]
  · rw [if_neg (by decide), if_neg (by decide)]
    rfl
  · rw [if_pos (by decide +kernel)]
  · rw [if_neg (by decide +kernel), if_neg (by decide)]
    rfl

end History

end Checkup
