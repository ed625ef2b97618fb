import Checkup.FileTree
import Mathlib.Data.List.Nodup

/-!
# Places in a changing file tree

A change by path touches one entry of one directory:

* `FileTree.Edit` — one tree becomes another by a change of one entry; what is put
  into a directory and what is erased from it are such changes (`edit_put`,
  `edit_erase`).
* `FileTree.Edit.at?_directory` — the other directories stay, with entries of the same
  names that are links as before.
* `FileTree.Edit.at?_file` — a new entry leaves the files as they are.
* `FileTree.Valid` — the names in every directory are distinct and without slashes, as a
  file system has them; changes keep that (`Valid.put`, `Valid.erase`).
-/

namespace Checkup.FileTree

/-! ## Places one after the other -/

theorem at?_append (t : FileTree) (place rest : List String) :
    t.at? (place ++ rest) = (t.at? place).bind (·.at? rest) := by
  induction place generalizing t with
  | nil => rfl
  | cons name names ih =>
    cases hc : t.child? name with
    | none => simp [at?, hc]
    | some child => simp [at?, hc, ih]

/-- A place below a directory is one of an entry. -/
theorem at?_cons (entries : List (String × FileTree)) (name : String) (rest : List String) :
    (directory entries).at? (name :: rest) =
      (OrderedMap.lookup? name entries).bind (·.at? rest) := by
  simp [at?, child?, FileTree.entries]

/-- An entry of a directory is at the place of that name. -/
theorem at?_entry {t : FileTree} {place : List String} {entries : List (String × FileTree)}
    (h : t.at? place = some (.directory entries)) (name : String) :
    t.at? (place ++ [name]) = OrderedMap.lookup? name entries := by
  rw [at?_append, h, Option.bind_some, at?_cons]
  cases OrderedMap.lookup? name entries <;> rfl

/-- What is there below the top is an entry of a directory. -/
theorem exists_entry_of_at? {t node : FileTree} {place : List String} {name : String}
    (h : t.at? (place ++ [name]) = some node) :
    ∃ entries, t.at? place = some (.directory entries) ∧
      OrderedMap.lookup? name entries = some node := by
  rw [at?_append, Option.bind_eq_some_iff] at h
  obtain ⟨parent, hparent, hentry⟩ := h
  cases parent with
  | directory entries =>
    have htop : (directory entries).at? [] = some (.directory entries) := rfl
    exact ⟨entries, hparent, (at?_entry htop name).symm.trans hentry⟩
  | file _ | link _ => simp [at?, child?, FileTree.entries, OrderedMap.lookup?] at hentry

/-! ## Changes of one entry -/

/-- One tree becomes another by a change of the entry `name` of the directory at a place. -/
inductive Edit (name : String) : List String → FileTree → FileTree → Prop
  /-- the entry of the directory itself -/
  | self {entries entries' : List (String × FileTree)} :
      (∀ other, other ≠ name →
        OrderedMap.lookup? other entries' = OrderedMap.lookup? other entries) →
      Edit name [] (.directory entries) (.directory entries')
  /-- an entry of a directory below -/
  | inside {entries entries' : List (String × FileTree)} {first : String} {rest : List String}
      {child child' : FileTree} :
      OrderedMap.lookup? first entries = some child →
      OrderedMap.lookup? first entries' = some child' →
      (∀ other, other ≠ first →
        OrderedMap.lookup? other entries' = OrderedMap.lookup? other entries) →
      Edit name rest child child' →
      Edit name (first :: rest) (.directory entries) (.directory entries')

/-- Where a node leads, if it is a link. -/
def target? : FileTree → Option String
  | .link target => some target
  | _ => none

namespace Edit

variable {name : String} {place : List String} {t t' : FileTree}

/-- Directories are changed, and into directories. -/
theorem target?_eq (h : Edit name place t t') : t.target? = none ∧ t'.target? = none := by
  cases h <;> exact ⟨rfl, rfl⟩

/-- A directory is still there, unless it is below the changed entry. Its entries have
the names that they had, and are the links that they were, but for the changed one. -/
theorem at?_directory (h : Edit name place t t') :
    ∀ {here : List String} {entries : List (String × FileTree)},
      t.at? here = some (.directory entries) → ¬ (place ++ [name]) <+: here →
      ∃ entries', t'.at? here = some (.directory entries') ∧
        ∀ other, here ≠ place ∨ other ≠ name →
          (OrderedMap.lookup? other entries').map target? =
            (OrderedMap.lookup? other entries).map target? := by
  induction h with
  | @self es es' hsame =>
    intro here entries hat hbelow
    -- it is the changed directory itself, or below another of its entries
    cases here with
    | nil =>
      obtain rfl : es = entries := FileTree.directory.inj (Option.some.inj hat)
      refine ⟨es', rfl, fun other hother => ?_⟩
      rw [hsame other (hother.resolve_left fun hne => hne rfl)]
    | cons first rest =>
      have hfirst : first ≠ name := by
        rintro rfl
        exact hbelow ⟨rest, rfl⟩
      refine ⟨entries, ?_, fun _ _ => rfl⟩
      rwa [at?_cons, hsame first hfirst, ← at?_cons]
  | @inside es es' first rest child child' hchild hchild' hsame hedit ih =>
    intro here entries hat hbelow
    -- it is this directory, on the way to the change, or below another entry
    cases here with
    | nil =>
      obtain rfl : es = entries := FileTree.directory.inj (Option.some.inj hat)
      refine ⟨es', rfl, fun other _ => ?_⟩
      by_cases hother : other = first
      · subst hother
        simp [hchild, hchild', hedit.target?_eq]
      · rw [hsame other hother]
    | cons second others =>
      by_cases hsecond : second = first
      · subst hsecond
        rw [at?_cons, hchild, Option.bind_some] at hat
        have hbelow' : ¬ (rest ++ [name]) <+: others := fun hp =>
          hbelow (List.cons_prefix_cons.mpr ⟨rfl, hp⟩)
        obtain ⟨entries', hentries', hlinks⟩ := ih hat hbelow'
        refine ⟨entries', ?_,
          fun other hother => hlinks other (hother.imp_left fun hne heq => hne (heq ▸ rfl))⟩
        rwa [at?_cons, hchild', Option.bind_some]
      · refine ⟨entries, ?_, fun _ _ => rfl⟩
        rwa [at?_cons, hsame second hsecond, ← at?_cons]

/-- A new entry leaves every file where it is. -/
theorem at?_file (h : Edit name place t t') {content : ByteArray} :
    ∀ {here : List String}, t.at? (place ++ [name]) = none → t.at? here = some (.file content) →
      t'.at? here = some (.file content) := by
  induction h with
  | @self es es' hsame =>
    intro here hnew hat
    cases here with
    | nil => cases hat
    | cons first rest =>
      have hfirst : first ≠ name := by
        rintro rfl
        rw [at?_cons, Option.bind_eq_some_iff] at hat
        obtain ⟨node, hnode, -⟩ := hat
        simp [at?_cons, hnode, at?] at hnew
      rwa [at?_cons, hsame first hfirst, ← at?_cons]
  | @inside es es' first rest child child' hchild hchild' hsame hedit ih =>
    intro here hnew hat
    cases here with
    | nil => cases hat
    | cons second others =>
      by_cases hsecond : second = first
      · subst hsecond
        rw [List.cons_append, at?_cons, hchild, Option.bind_some] at hnew
        rw [at?_cons, hchild, Option.bind_some] at hat
        rw [at?_cons, hchild', Option.bind_some]
        exact ih hnew hat
      · rwa [at?_cons, hsame second hsecond, ← at?_cons]

end Edit

theorem put_singleton (new : FileTree) (name : String) (entries : List (String × FileTree)) :
    put new [name] (.directory entries) = .directory (OrderedMap.store name new entries) := by
  cases hl : OrderedMap.lookup? name entries <;> simp [put, hl]

/-- Putting an entry into a directory changes that entry, and what is put is there. -/
theorem edit_put (new : FileTree) (name : String) {place : List String} {t : FileTree}
    {entries : List (String × FileTree)} (h : t.at? place = some (.directory entries)) :
    Edit name place t (put new (place ++ [name]) t) ∧
      (put new (place ++ [name]) t).at? place =
        some (.directory (OrderedMap.store name new entries)) := by
  induction place generalizing t with
  | nil =>
    obtain rfl : t = .directory entries := Option.some.inj h
    rw [List.nil_append, put_singleton]
    refine ⟨.self fun other hother => ?_, rfl⟩
    rw [OrderedMap.lookup?_store, if_neg (Ne.symm hother)]
  | cons first rest ih =>
    match t, h with
    | .directory es, h =>
      rw [at?_cons, Option.bind_eq_some_iff] at h
      obtain ⟨child, hc, h⟩ := h
      obtain ⟨hedit, hat⟩ := ih h
      have hput : put new (first :: rest ++ [name]) (.directory es) =
          .directory (OrderedMap.store first (put new (rest ++ [name]) child) es) := by
        simp [put, hc]
      rw [hput]
      refine ⟨.inside hc (by simp [OrderedMap.lookup?_store]) (fun other hother => ?_) hedit, ?_⟩
      · rw [OrderedMap.lookup?_store, if_neg (Ne.symm hother)]
      · simpa [at?_cons, OrderedMap.lookup?_store] using hat

/-- Erasing an entry of a directory changes that entry, and nothing is there any more. -/
theorem edit_erase (name : String) {place : List String} {t : FileTree}
    {entries : List (String × FileTree)} (h : t.at? place = some (.directory entries)) :
    Edit name place t (erase (place ++ [name]) t) ∧
      (erase (place ++ [name]) t).at? place =
        some (.directory (entries.filter fun e => e.1 ≠ name)) := by
  induction place generalizing t with
  | nil =>
    obtain rfl : t = .directory entries := Option.some.inj h
    refine ⟨.self fun other hother => ?_, rfl⟩
    rw [OrderedMap.lookup?_filter (fun key => key ≠ name), if_pos (by simpa using hother)]
  | cons first rest ih =>
    match t, h with
    | .directory es, h =>
      rw [at?_cons, Option.bind_eq_some_iff] at h
      obtain ⟨child, hc, h⟩ := h
      obtain ⟨hedit, hat⟩ := ih h
      have herase : erase (first :: rest ++ [name]) (.directory es) =
          .directory (OrderedMap.store first (erase (rest ++ [name]) child) es) := by
        cases rest <;> simp [erase, hc]
      rw [herase]
      refine ⟨.inside hc (by simp [OrderedMap.lookup?_store]) (fun other hother => ?_) hedit, ?_⟩
      · rw [OrderedMap.lookup?_store, if_neg (Ne.symm hother)]
      · simpa [at?_cons, OrderedMap.lookup?_store] using hat

/-! ## Trees that a file system could hold -/

/-- Names as a directory has them. -/
structure ProperNames (entries : List (String × FileTree)) : Prop where
  /-- they are distinct -/
  nodup : (entries.map Prod.fst).Nodup
  /-- no name has a slash -/
  no_slash : ∀ name ∈ entries.map Prod.fst, '/' ∉ name.toList

namespace ProperNames

variable {entries : List (String × FileTree)}

/-- What is looked up has a name without a slash. -/
theorem of_lookup? (h : ProperNames entries) {name : String} {node : FileTree}
    (hentry : OrderedMap.lookup? name entries = some node) : '/' ∉ name.toList :=
  h.no_slash name (List.mem_map.mpr ⟨_, OrderedMap.mem_of_lookup?_eq_some hentry, rfl⟩)

theorem store (h : ProperNames entries) {name : String} (hname : '/' ∉ name.toList)
    (node : FileTree) : ProperNames (OrderedMap.store name node entries) := by
  refine ⟨(OrderedMap.insert ⟨entries, h.nodup⟩ name node).nodup, fun other hother => ?_⟩
  rw [OrderedMap.map_fst_store] at hother
  split at hother
  · exact h.no_slash other hother
  · rcases List.mem_append.mp hother with hother | hother
    · exact h.no_slash other hother
    · rw [List.mem_singleton.mp hother]
      exact hname

theorem filter (h : ProperNames entries) (keep : String × FileTree → Bool) :
    ProperNames (entries.filter keep) := by
  have hsub : ((entries.filter keep).map Prod.fst).Sublist (entries.map Prod.fst) :=
    List.filter_sublist.map _
  exact ⟨h.nodup.sublist hsub, fun name hname => h.no_slash name (hsub.mem hname)⟩

/-- An entry after storing is the one that was stored or one from before. -/
theorem mem_store (h : ProperNames entries) {name : String} {node : FileTree}
    {e : String × FileTree} (he : e ∈ OrderedMap.store name node entries) :
    e = (name, node) ∨ e ∈ entries := by
  have hnodup := (OrderedMap.insert ⟨entries, h.nodup⟩ name node).nodup
  have hlookup := OrderedMap.lookup?_eq_some_of_mem hnodup (he : (e.1, e.2) ∈ _)
  rw [OrderedMap.insert, OrderedMap.lookup?_store] at hlookup
  split at hlookup
  · rename_i hname
    exact .inl (Prod.ext hname.symm (Option.some.inj hlookup).symm)
  · exact .inr (OrderedMap.mem_of_lookup?_eq_some hlookup)

end ProperNames

/-- **A tree as a file system has it**: the names in every directory are proper. -/
def Valid (t : FileTree) : Prop :=
  ∀ place entries, t.at? place = some (.directory entries) → ProperNames entries

/-- A directory is valid by its names and by what it has in it. -/
theorem valid_directory_iff {entries : List (String × FileTree)} :
    Valid (.directory entries) ↔
      ProperNames entries ∧
        ∀ name child, OrderedMap.lookup? name entries = some child → child.Valid := by
  constructor
  · intro h
    refine ⟨h [] entries rfl, fun name child hc place es hes => ?_⟩
    refine h (name :: place) es ?_
    rwa [at?_cons, hc, Option.bind_some]
  · rintro ⟨hnames, hchildren⟩ place es hes
    cases place with
    | nil =>
      obtain rfl : entries = es := FileTree.directory.inj (Option.some.inj hes)
      exact hnames
    | cons name rest =>
      rw [at?_cons, Option.bind_eq_some_iff] at hes
      obtain ⟨child, hc, hes⟩ := hes
      exact hchildren name child hc rest es hes

/-- What is in a valid tree is valid. -/
theorem Valid.of_at? {t node : FileTree} (h : t.Valid) {place : List String}
    (hat : t.at? place = some node) : node.Valid := by
  intro below entries hentries
  apply h (place ++ below) entries
  rw [at?_append, hat, Option.bind_some, hentries]

/-- A directory with proper names is valid if everything in it is. -/
theorem valid_of_entries {entries : List (String × FileTree)} (hnames : ProperNames entries)
    (hentries : ∀ entry ∈ entries, entry.2.Valid) : Valid (.directory entries) :=
  valid_directory_iff.mpr
    ⟨hnames, fun _ _ hchild => hentries _ (OrderedMap.mem_of_lookup?_eq_some hchild)⟩

/-- What has no entries is valid. -/
theorem valid_of_entries_eq_nil {t : FileTree} (h : t.entries = []) : t.Valid := by
  intro place es hes
  cases place with
  | nil =>
    obtain rfl : t = .directory es := Option.some.inj hes
    obtain rfl : es = [] := h
    exact ⟨List.nodup_nil, nofun⟩
  | cons name rest => simp [at?, child?, h, OrderedMap.lookup?] at hes

/-- Storing a valid node under a name without a slash keeps a directory valid. -/
theorem Valid.store {entries : List (String × FileTree)} (h : Valid (.directory entries))
    {name : String} {node : FileTree} (hname : '/' ∉ name.toList) (hnode : node.Valid) :
    Valid (.directory (OrderedMap.store name node entries)) := by
  obtain ⟨hnames, hchildren⟩ := valid_directory_iff.mp h
  refine valid_directory_iff.mpr ⟨hnames.store hname node, fun other child hc => ?_⟩
  rw [OrderedMap.lookup?_store] at hc
  split at hc
  · cases hc
    exact hnode
  · exact hchildren other child hc

/-- Putting a valid node under a name without a slash keeps a tree valid. -/
theorem Valid.put {t new : FileTree} (h : t.Valid) (hnew : new.Valid) {name : String}
    (hname : '/' ∉ name.toList) (place : List String) :
    (put new (place ++ [name]) t).Valid := by
  induction place generalizing t with
  | nil =>
    cases t with
    | directory entries =>
      rw [List.nil_append, put_singleton]
      exact h.store hname hnew
    | file _ | link _ => exact h
  | cons first rest ih =>
    cases t with
    | directory entries =>
      cases hl : OrderedMap.lookup? first entries with
      | none => simpa [FileTree.put, hl] using h
      | some child =>
        obtain ⟨hnames, hchildren⟩ := valid_directory_iff.mp h
        have hstore := h.store (hnames.of_lookup? hl) (ih (hchildren first child hl))
        simpa [FileTree.put, hl] using hstore
    | file _ | link _ => exact h

/-- Erasing keeps a tree valid. -/
theorem Valid.erase {t : FileTree} (h : t.Valid) (place : List String) (name : String) :
    (erase (place ++ [name]) t).Valid := by
  induction place generalizing t with
  | nil =>
    cases t with
    | directory entries =>
      obtain ⟨hnames, hchildren⟩ := valid_directory_iff.mp h
      refine valid_directory_iff.mpr ⟨hnames.filter _, fun other child hc => ?_⟩
      rw [OrderedMap.lookup?_filter (fun key => key ≠ name)] at hc
      split at hc
      · exact hchildren other child hc
      · cases hc
    | file _ | link _ => exact h
  | cons first rest ih =>
    cases t with
    | directory entries =>
      cases hl : OrderedMap.lookup? first entries with
      | none => cases rest <;> simpa [FileTree.erase, hl] using h
      | some child =>
        obtain ⟨hnames, hchildren⟩ := valid_directory_iff.mp h
        have hstore := h.store (hnames.of_lookup? hl) (ih (hchildren first child hl))
        cases rest <;> simpa [FileTree.erase, hl] using hstore
    | file _ | link _ => cases rest <;> exact h

end Checkup.FileTree
