import Checkup.Proofs.Pruning

/-!
# One save after the other

Saves in seconds that do not go back, into a directory that has no stored evaluation:

* `History.saveAll` — one save after the other.
* `History.Kept` — the seconds that are kept, each with the save that wrote it last. Later
  saves are in later seconds; a free second is behind all of them, or before all of them and
  then no place is left. Every save keeps that (`Kept.newest`, `Kept.beyond`, `Kept.step`).
* `History.exists_saveAll` — so it is with every run.
* `History.saves_listed_last_first` — what was saved later is listed earlier.
-/

namespace Checkup

/-! ## Last places -/

/-- Where an element is in a list for the last time. -/
def LastAt {α : Type*} (xs : List α) (i : Nat) (x : α) : Prop :=
  xs[i]? = some x ∧ ∀ j, i < j → xs[j]? ≠ some x

namespace LastAt

variable {α : Type*} {xs : List α} {i j : Nat} {x y : α}

theorem unique (hi : LastAt xs i x) (hj : LastAt xs j x) : i = j := by
  rcases Nat.lt_trichotomy i j with h | h | h
  · exact absurd hj.1 (hi.2 j h)
  · exact h
  · exact absurd hi.1 (hj.2 i h)

theorem concat_self (xs : List α) (x : α) : LastAt (xs ++ [x]) xs.length x := by
  refine ⟨by simp, fun j hj => ?_⟩
  rw [List.getElem?_eq_none (by simpa using hj)]
  exact nofun

theorem concat_of_ne (h : LastAt xs i x) (hne : x ≠ y) : LastAt (xs ++ [y]) i x := by
  obtain ⟨hlt, -⟩ := List.getElem?_eq_some_iff.mp h.1
  refine ⟨by rw [List.getElem?_append_left hlt, h.1], fun j hj hget => ?_⟩
  rcases Nat.lt_or_ge j xs.length with hbefore | hbehind
  · rw [List.getElem?_append_left hbefore] at hget
    exact h.2 j hj hget
  · rw [List.getElem?_append_right hbehind] at hget
    exact hne (List.mem_singleton.mp (List.mem_of_getElem? hget))

end LastAt

namespace History

variable {h : History} {files files' : FileTree} {entries after : List (String × FileTree)}
  {e : Evaluation} {first stamp : Int} {saves : List (Evaluation × Int)} {paths : List String}
  {kept : List (Int × Nat)}

/-! ## Runs -/

/-- Stores evaluations one after the other, each from a second on. The results are the paths
of the new files. -/
def saveAll (h : History) (files : FileTree) :
    List (Evaluation × Int) → Except Error (List String × FileTree)
  | [] => .ok ([], files)
  | (e, first) :: rest => do
    let (path, files) ← h.save files e first
    let (paths, files) ← h.saveAll files rest
    return (path :: paths, files)

/-- A run goes on with one more save. -/
theorem saveAll_concat {mid : FileTree} {path : String}
    (hrun : h.saveAll files saves = .ok (paths, mid))
    (hs : h.save mid e first = .ok (path, files')) :
    h.saveAll files (saves ++ [(e, first)]) = .ok (paths ++ [path], files') := by
  induction saves generalizing files paths with
  | nil =>
    cases hrun
    rw [List.nil_append, saveAll, hs]
    rfl
  | cons save rest ih =>
    rw [saveAll] at hrun
    obtain ⟨⟨p, next⟩, hsave, hrun⟩ := bind_eq_ok hrun
    obtain ⟨⟨ps, last⟩, hrest, hrun⟩ := bind_eq_ok hrun
    cases hrun
    rw [List.cons_append, saveAll, hsave]
    change (h.saveAll next (rest ++ [(e, first)]) >>= _) = _
    rw [ih hrest]
    rfl

/-- What is known after some saves, with the seconds that are kept, the latest first, and the
number of the save that wrote each. -/
structure Kept (h : History) (saves : List (Evaluation × Int)) (paths : List String)
    (entries : List (String × FileTree)) (kept : List (Int × Nat)) : Prop where
  /-- every save has its path -/
  count : paths.length = saves.length
  /-- those seconds are listed -/
  listed : stampedNames (entries.map Prod.fst) = kept.map fun k => nameOf k.1
  /-- they are seconds of 64 bits -/
  fits : ∀ k ∈ kept, Text.fitsSigned64 k.1 = true
  /-- each holds what the last save in it wrote -/
  written : ∀ k ∈ kept, LastAt paths k.2 (h.pathOf (nameOf k.1)) ∧
    ∃ save, saves[k.2]? = some save ∧
      OrderedMap.lookup? (nameOf k.1) entries = some (.file save.1.toText.toUTF8)
  /-- later seconds are those of later saves -/
  sorted : kept.Pairwise fun a b => b.1 < a.1 ∧ b.2 < a.2
  /-- as many are kept as can be -/
  length_eq : kept.length = min saves.length h.limit
  /-- a free second, not before those of the saves, is behind all that are kept, or before
  them, and then there is no place left -/
  gaps : ∀ t, (∀ save ∈ saves, save.2 ≤ t) → t ∉ kept.map Prod.fst →
    (∀ k ∈ kept, k.1 < t) ∨ kept.length = h.limit ∧ ∀ k ∈ kept, t < k.1

/-- Without stored evaluations no save is known. -/
theorem kept_nil (hnone : ∀ entry ∈ entries, stamp? entry.1 = none) : h.Kept [] [] entries [] where
  count := rfl
  listed := by
    refine List.eq_nil_iff_forall_not_mem.mpr fun name hname => ?_
    obtain ⟨hmem, hstamp⟩ := mem_stampedNames.mp hname
    obtain ⟨entry, hentry, rfl⟩ := List.mem_map.mp hmem
    rw [hnone entry hentry] at hstamp
    cases hstamp
  fits := nofun
  written := nofun
  sorted := .nil
  length_eq := (Nat.zero_min _).symm
  gaps := fun _ _ _ => .inl nofun

/-- Different seconds have different paths. -/
theorem pathOf_injective (hne : h.directory ≠ "")
    (hlast : h.directory.toList.getLast? ≠ some '/') {s t : Int}
    (heq : h.pathOf (nameOf s) = h.pathOf (nameOf t)) : s = t := by
  have hnames := congrArg Path.names heq
  rw [pathOf, pathOf, Path.names_join hne hlast (isName_nameOf s),
    Path.names_join hne hlast (isName_nameOf t)] at hnames
  exact nameOf_injective (List.singleton_inj.mp (List.append_cancel_left hnames))

/-- In a list of seconds, the latest first, those that are not taken are before the others,
and then there is no place left. -/
theorem full_of_notMem_take (hsorted : kept.Pairwise fun a b => b.1 < a.1 ∧ b.2 < a.2) {t : Int}
    (ht : t ∈ kept.map Prod.fst) {limit : Nat} (hnot : t ∉ (kept.take limit).map Prod.fst) :
    (kept.take limit).length = limit ∧ ∀ k ∈ kept.take limit, t < k.1 := by
  obtain ⟨k, hk, rfl⟩ := List.mem_map.mp ht
  have hdrop : k ∈ kept.drop limit := by
    rw [← List.take_append_drop limit kept] at hk
    exact (List.mem_append.mp hk).resolve_left fun htake => hnot (List.mem_map.mpr ⟨k, htake, rfl⟩)
  refine ⟨?_, fun other hother => ?_⟩
  · have hpos := List.length_pos_of_mem hdrop
    rw [List.length_drop] at hpos
    rw [List.length_take]
    omega
  · rw [← List.take_append_drop limit kept] at hsorted
    exact ((List.pairwise_append.mp hsorted).2.2 other hother k hdrop).1

namespace Kept

variable (hkept : h.Kept saves paths entries kept)
include hkept

/-- A second of 64 bits is taken just if it is kept. -/
theorem mem_iff {t : Int} (ht : Text.fitsSigned64 t = true) :
    nameOf t ∈ entries.map Prod.fst ↔ t ∈ kept.map Prod.fst := by
  have hlisted : nameOf t ∈ entries.map Prod.fst ↔ nameOf t ∈ kept.map fun k => nameOf k.1 := by
    rw [← hkept.listed, mem_stampedNames, stamp?_nameOf ht]
    exact (and_iff_left rfl).symm
  rw [hlisted, ← List.mem_map_of_injective nameOf_injective, List.map_map]
  rfl

/-- The first free second has no more before it than are kept; it is one of 64 bits, and none
of those that are kept. -/
theorem stamp_spec (hleast : IsLeast {s | first ≤ s ∧ nameOf s ∉ entries.map Prod.fst} stamp)
    (hmoment : (Calendar.ofSeconds? first).isSome = true) (hroom : kept.length < 2 ^ 62) :
    stamp ≤ first + kept.length ∧ Text.fitsSigned64 stamp = true ∧
      stamp ∉ kept.map Prod.fst := by
  obtain ⟨n, hn, hnew⟩ := exists_nameOf_notMem (kept.map fun k => nameOf k.1) first
  rw [List.length_map] at hn
  have hfits : Text.fitsSigned64 (first + n) = true :=
    Calendar.fitsSigned64_of_moment hmoment (by omega) (by omega)
  have hfree : nameOf (first + n) ∉ entries.map Prod.fst := fun hmem => by
    rw [← hkept.listed, mem_stampedNames, stamp?_nameOf hfits] at hnew
    exact hnew ⟨hmem, rfl⟩
  have hle := hleast.2 ⟨by omega, hfree⟩
  have hstamp := Calendar.fitsSigned64_of_moment hmoment hleast.1.1 (by omega)
  exact ⟨by omega, hstamp, mt (hkept.mem_iff hstamp).mpr hleast.1.2⟩

/-! ## One more save -/

/-- What is left of the kept ones holds what it held, and the new one the evaluation. -/
theorem written_concat (hne : h.directory ≠ "")
    (hlast : h.directory.toList.getLast? ≠ some '/') (hupdated : h.Updated e stamp entries after)
    (hnew : stamp ∉ kept.map Prod.fst) {kept' : List (Int × Nat)}
    (hlisted : stampedNames (after.map Prod.fst) = kept'.map fun k => nameOf k.1)
    (hkept' : ∀ k ∈ kept', k = (stamp, saves.length) ∨ k ∈ kept) :
    ∀ k ∈ kept', LastAt (paths ++ [h.pathOf (nameOf stamp)]) k.2 (h.pathOf (nameOf k.1)) ∧
      ∃ save, (saves ++ [(e, first)])[k.2]? = some save ∧
        OrderedMap.lookup? (nameOf k.1) after = some (.file save.1.toText.toUTF8) := by
  intro k hk
  have hlookup := hupdated.lookup?_of_listed (hlisted ▸ List.mem_map.mpr ⟨k, hk, rfl⟩)
  rcases hkept' k hk with rfl | hold
  · rw [if_pos rfl] at hlookup
    refine ⟨?_, (e, first), by simp, hlookup⟩
    rw [← hkept.count]
    exact LastAt.concat_self paths _
  · have hother : k.1 ≠ stamp := fun heq => hnew (heq ▸ List.mem_map.mpr ⟨k, hold, rfl⟩)
    obtain ⟨hat, save, hsave, hcontent⟩ := hkept.written k hold
    rw [if_neg fun heq => hother (nameOf_injective heq), hcontent] at hlookup
    obtain ⟨hlt, -⟩ := List.getElem?_eq_some_iff.mp hsave
    refine ⟨hat.concat_of_ne fun heq => hother (pathOf_injective hne hlast heq), save, ?_, hlookup⟩
    rw [List.getElem?_append_left hlt, hsave]

/-- With a save behind all that are kept, every free second from the asked one on is still
behind all, or before them without a place left. -/
theorem gaps_take (hroom : kept.length < 2 ^ 62)
    (hmoment : (Calendar.ofSeconds? first).isSome = true)
    (hleast : IsLeast {s | first ≤ s ∧ nameOf s ∉ entries.map Prod.fst} stamp)
    (hbehind : ∀ k ∈ kept, k.1 < stamp) {n : Nat}
    (hsorted : ((stamp, n) :: kept).Pairwise fun a b => b.1 < a.1 ∧ b.2 < a.2) {t : Int}
    (ht : first ≤ t) (hfree : t ∉ (((stamp, n) :: kept).take h.limit).map Prod.fst) :
    (∀ k ∈ ((stamp, n) :: kept).take h.limit, k.1 < t) ∨
      (((stamp, n) :: kept).take h.limit).length = h.limit ∧
        ∀ k ∈ ((stamp, n) :: kept).take h.limit, t < k.1 := by
  obtain ⟨hle, -⟩ := hkept.stamp_spec hleast hmoment hroom
  rcases Int.lt_trichotomy t stamp with hlt | rfl | hgt
  · -- a second from the asked one to the given one was taken, and is given up
    have htaken : t ∈ kept.map Prod.fst := by
      by_contra hno
      have hfits' := Calendar.fitsSigned64_of_moment hmoment ht (by omega)
      have := hleast.2 ⟨ht, mt (hkept.mem_iff hfits').mp hno⟩
      omega
    exact .inr (full_of_notMem_take hsorted (List.mem_cons_of_mem _ htaken) hfree)
  · refine absurd ?_ hfree
    obtain ⟨n, hn⟩ := Nat.exists_eq_succ_of_ne_zero h.limit_pos.ne'
    rw [hn]
    exact List.mem_cons_self
  · refine .inl fun k hk => ?_
    rcases List.mem_cons.mp (List.mem_of_mem_take hk) with rfl | hk
    · exact hgt
    · exact (hbehind k hk).trans hgt

variable (hne : h.directory ≠ "") (hlast : h.directory.toList.getLast? ≠ some '/')
  (hupdated : h.Updated e stamp entries after) (hnames : (entries.map Prod.fst).Nodup)
  (hroom : kept.length < 2 ^ 62) (hmoment : (Calendar.ofSeconds? first).isSome = true)
  (hleast : IsLeast {s | first ≤ s ∧ nameOf s ∉ entries.map Prod.fst} stamp)
include hne hlast hupdated hnames hroom hmoment hleast

/-- **A save behind all that are kept** is kept first, and the last one is given up if there
is no place left. -/
theorem newest (hbehind : ∀ k ∈ kept, k.1 < stamp) :
    h.Kept (saves ++ [(e, first)]) (paths ++ [h.pathOf (nameOf stamp)]) after
      (((stamp, saves.length) :: kept).take h.limit) := by
  obtain ⟨-, hfits, hnew⟩ := hkept.stamp_spec hleast hmoment hroom
  have hsorted : ((stamp, saves.length) :: kept).Pairwise fun a b => b.1 < a.1 ∧ b.2 < a.2 := by
    refine .cons (fun k hk => ⟨hbehind k hk, ?_⟩) hkept.sorted
    obtain ⟨-, save, hsave, -⟩ := hkept.written k hk
    exact (List.getElem?_eq_some_iff.mp hsave).1
  have hlisted : stampedNames (after.map Prod.fst) =
      (((stamp, saves.length) :: kept).take h.limit).map fun k => nameOf k.1 := by
    have hnodup := hnames.concat hleast.1.2
    rw [List.concat_eq_append] at hnodup
    have hstamp : (stamp? (nameOf stamp)).isSome = true := by
      rw [stamp?_nameOf hfits]
      rfl
    rw [hupdated.names, stampedNames_concat [] _ hnodup hstamp hkept.listed nofun, List.map_take]
    · rfl
    · intro other hother
      obtain ⟨k, hk, rfl⟩ := List.mem_map.mp hother
      exact (newer_nameOf_iff hfits (hkept.fits k hk)).mpr (hbehind k hk)
  refine ⟨by simp [hkept.count], hlisted, fun k hk => ?_, ?_,
    hsorted.sublist (List.take_sublist _ _), ?_, fun t ht hfree => ?_⟩
  · rcases List.mem_cons.mp (List.mem_of_mem_take hk) with rfl | hk
    · exact hfits
    · exact hkept.fits k hk
  · exact hkept.written_concat hne hlast hupdated hnew hlisted fun k hk =>
      List.mem_cons.mp (List.mem_of_mem_take hk)
  · have := hkept.length_eq
    simp only [List.length_take, List.length_cons, List.length_append, List.length_nil]
    omega
  · exact hkept.gaps_take hroom hmoment hleast hbehind hsorted
      (ht _ (List.mem_append_right _ (List.mem_singleton_self _))) hfree

/-- **A save before all that are kept**, when there is no place left, is given up itself. -/
theorem beyond (hfull : kept.length = h.limit) (hbefore : ∀ k ∈ kept, stamp < k.1) :
    h.Kept (saves ++ [(e, first)]) (paths ++ [h.pathOf (nameOf stamp)]) after kept := by
  obtain ⟨-, hfits, hnew⟩ := hkept.stamp_spec hleast hmoment hroom
  have hlisted : stampedNames (after.map Prod.fst) = kept.map fun k => nameOf k.1 := by
    have hnodup := hnames.concat hleast.1.2
    rw [List.concat_eq_append] at hnodup
    have hstamp : (stamp? (nameOf stamp)).isSome = true := by
      rw [stamp?_nameOf hfits]
      rfl
    rw [hupdated.names, stampedNames_concat _ [] hnodup hstamp
      (hkept.listed.trans (List.append_nil _).symm) ?_ nofun,
      List.take_left' (by simpa using hfull)]
    intro other hother
    obtain ⟨k, hk, rfl⟩ := List.mem_map.mp hother
    exact (newer_nameOf_iff (hkept.fits k hk) hfits).mpr (hbefore k hk)
  refine ⟨by simp [hkept.count], hlisted, hkept.fits, ?_, hkept.sorted, ?_, fun t ht => ?_⟩
  · exact hkept.written_concat hne hlast hupdated hnew hlisted fun k hk => .inr hk
  · have := hkept.length_eq
    rw [List.length_append]
    omega
  · exact hkept.gaps t fun save hsave => ht save (List.mem_append_left _ hsave)

/-- **Every save** in a second that is not before the others keeps what is known. -/
theorem step (hclock : ∀ save ∈ saves, save.2 ≤ first) :
    ∃ kept', h.Kept (saves ++ [(e, first)]) (paths ++ [h.pathOf (nameOf stamp)]) after kept' := by
  obtain ⟨-, -, hnew⟩ := hkept.stamp_spec hleast hmoment hroom
  rcases hkept.gaps stamp (fun save hsave => (hclock save hsave).trans hleast.1.1) hnew with
    hbehind | ⟨hfull, hbefore⟩
  · exact ⟨_, hkept.newest hne hlast hupdated hnames hroom hmoment hleast hbehind⟩
  · exact ⟨_, hkept.beyond hne hlast hupdated hnames hroom hmoment hleast hfull hbefore⟩

end Kept

/-! ## Every run -/

/-- **Every run** of saves succeeds, in seconds that do not go back, and what is known after
some saves is known after it. -/
theorem exists_saveAll (hne : h.directory ≠ "") (hlast : h.directory.toList.getLast? ≠ some '/')
    (hvalid : files.Valid) (hfinds : h.Finds files entries)
    (hfiles : ∀ entry ∈ entries, entry.2.isFile = true)
    (hnone : ∀ entry ∈ entries, stamp? entry.1 = none)
    (hclock : saves.Pairwise fun a b => a.2 ≤ b.2)
    (hmoments : ∀ save ∈ saves, (Calendar.ofSeconds? save.2).isSome = true)
    (hcount : min saves.length h.limit < 2 ^ 62) :
    ∃ paths files' left kept, h.saveAll files saves = .ok (paths, files') ∧ files'.Valid ∧
      (∀ entry ∈ left, entry.2.isFile = true) ∧ h.Kept saves paths left kept ∧
      h.Finds files' left ∧ (saves ≠ [] → files'.list? h.directory = some left) := by
  -- by induction on the saves from the last one back
  induction saves using List.reverseRecOn with
  | nil =>
    exact ⟨[], files, entries, [], rfl, hvalid, hfiles, kept_nil hnone, hfinds,
      fun hne => absurd rfl hne⟩
  | append_singleton saves save ih =>
    obtain ⟨e, first⟩ := save
    rw [List.pairwise_append] at hclock
    rw [List.forall_mem_append, List.forall_mem_singleton] at hmoments
    rw [List.length_append] at hcount
    obtain ⟨paths, mid, left, kept, hrun, hvalid, hfiles, hkept, hfinds, -⟩ :=
      ih hclock.1 hmoments.1 (by omega)
    obtain ⟨hleast, -⟩ := hfinds.isLeast_freeStamp hlast hfiles first
    have hroom : kept.length < 2 ^ 62 := by
      rw [hkept.length_eq]
      omega
    obtain ⟨-, hfits, -⟩ := hkept.stamp_spec hleast hmoments.2 hroom
    obtain ⟨files', after, hs, hvalid', hlist, hupdated⟩ :=
      hfinds.exists_save (e := e) hlast hvalid hfiles hfits
    have hnames : (left.map Prod.fst).Nodup :=
      (hfinds.stored_eq ▸ properNames_stored hvalid : FileTree.ProperNames left).nodup
    obtain ⟨kept', hkept'⟩ := hkept.step hne hlast hupdated hnames hroom hmoments.2
      hleast fun save hsave => hclock.2.2 save hsave _ (List.mem_singleton_self _)
    exact ⟨_, files', after, kept', saveAll_concat hrun hs, hvalid', hupdated.files, hkept',
      .of_list? hlist, fun _ => hlist⟩

/-- **What was saved later is listed earlier**, after every run of saves in seconds that do
not go back. As many are listed as can be, and each holds the evaluation of the last save at
its path. The workspace is one of the tree, since nothing is found at a path that leaves it. -/
theorem saves_listed_last_first {workspace : String} {size : Nat}
    (saves : List (Evaluation × Int)) (hvalid : files.Valid)
    (hfinds : (ofWorkspace workspace size).Finds files entries)
    (hfiles : ∀ entry ∈ entries, entry.2.isFile = true)
    (hnone : ∀ entry ∈ entries, stamp? entry.1 = none)
    (hsaves : saves ≠ []) (hclock : saves.Pairwise fun a b => a.2 ≤ b.2)
    (hmoments : ∀ save ∈ saves, (Calendar.ofSeconds? save.2).isSome = true)
    (hcount : min saves.length (max size 1) < 2 ^ 62) :
    let h := ofWorkspace workspace size
    ∃ (paths : List String) (files' : FileTree) (listed : List String),
      h.saveAll files saves = .ok (paths, files') ∧ paths.length = saves.length ∧
      h.list files' = .ok listed ∧ listed.length = min saves.length (max size 1) ∧
      (∀ path ∈ listed, ∃ i save, LastAt paths i path ∧ saves[i]? = some save ∧
        files'.read? path = some save.1.toText.toUTF8) ∧
      listed.Pairwise fun p q => ∀ i j, LastAt paths i p → LastAt paths j q → j < i := by
  obtain ⟨hne, hlast⟩ := directory_ofWorkspace workspace size
  have hlimit : (ofWorkspace workspace size).limit = max size 1 := rfl
  rw [← hlimit] at hcount ⊢
  generalize ofWorkspace workspace size = h at *
  intro h
  obtain ⟨paths, files', left, kept, hrun, -, -, hkept, -, hlist⟩ :=
    exists_saveAll hne hlast hvalid hfinds hfiles hnone hclock hmoments hcount
  have hlist := hlist hsaves
  refine ⟨paths, files', kept.map fun k => h.pathOf (nameOf k.1), hrun, hkept.count, ?_, ?_, ?_, ?_⟩
  · rw [list_eq hlist, hkept.listed, List.map_map]
    rfl
  · rw [List.length_map, hkept.length_eq]
  · intro path hpath
    obtain ⟨k, hk, rfl⟩ := List.mem_map.mp hpath
    obtain ⟨hat, save, hsave, hcontent⟩ := hkept.written k hk
    refine ⟨k.2, save, hat, hsave, ?_⟩
    rw [FileTree.read?, pathOf, FileTree.get?_join hlist hlast (isName_nameOf _)
      (by rw [hcontent]; rfl), hcontent]
  · refine List.pairwise_map.mpr (hkept.sorted.imp_of_mem fun {a b} ha hb hab i j hi hj => ?_)
    rw [hi.unique (hkept.written a ha).1, hj.unique (hkept.written b hb).1]
    exact hab.2

/-- Of four saves in one second two are listed, with place for two, the later one first. -/
theorem saves_listed_last_first_crowded :
    ∃ paths files' newer older i j,
      (ofWorkspace "." 2).saveAll (workspaceOf []) (List.replicate 4 (passed, 5)) =
        .ok (paths, files') ∧
      (ofWorkspace "." 2).list files' = .ok [newer, older] ∧
      LastAt paths i newer ∧ LastAt paths j older ∧ j < i ∧
      files'.read? newer = some passed.toText.toUTF8 := by
  obtain ⟨paths, files', listed, hrun, -, hlist, hlength, hcontent, hsorted⟩ :=
    saves_listed_last_first (List.replicate 4 (passed, 5))
      (valid_workspaceOf FileTree.valid_empty) (.of_list? (list?_workspaceOf 2 []))
      nofun nofun (by decide) (by simp) (by decide +kernel) (by decide)
  obtain ⟨newer, older, rfl⟩ := List.length_eq_two.mp hlength
  obtain ⟨i, save, hi, hsave, hread⟩ := hcontent newer List.mem_cons_self
  obtain ⟨j, -, hj, -, -⟩ := hcontent older (List.mem_cons_of_mem _ List.mem_cons_self)
  obtain rfl : save = (passed, 5) := List.eq_of_mem_replicate (List.mem_of_getElem? hsave)
  have hlater := (List.pairwise_cons.mp hsorted).1 older List.mem_cons_self i j hi hj
  exact ⟨paths, files', newer, older, i, j, hrun, hlist, hi, hj, hlater, hread⟩

end History

end Checkup
