import Checkup.Proofs.Containment
import Checkup.Proofs.Saving

/-!
# Names with a stamp

Which names have a stamp, and which paths:

* `Path.isName_of_fileName?`, `Path.fileName?_join` — the file name of a path is a name that an
  entry can have, and that of a path into a directory is the last name.
* `History.StampedName` — the names with a stamp, as a grammar.
* `History.stamp?_of_fileName?`, `stamp?_eq_some_iff_stampedName` — a path has the stamp of its
  file name, and a name the one that it spells.
* `History.stamps_exact` — what is given a stamp has it, and what spells none has none.
-/

namespace Checkup

/-! ## File names -/

namespace Path

variable {path name : String} {cs : List String}

theorem IsName.fileName?_eq (hname : IsName name) : fileName? name = some name := by
  rw [fileName?_of_no_slash hname.no_slash]
  simp [hname.ne_empty, hname.ne_dot, hname.ne_dots]

/-- The components of a path are not empty, and but for the root they have no slash. -/
theorem Spells.eq_root_or (h : Spells path cs) :
    ∀ c ∈ cs, c = "/" ∨ c ≠ "" ∧ '/' ∉ c.toList := by
  induction h with
  | empty => exact nofun
  | first hne hslash => exact fun c hc => .inr (List.mem_singleton.mp hc ▸ ⟨hne, hslash⟩)
  | root => exact fun c hc => .inl (List.mem_singleton.mp hc)
  | slash _ _ ih => exact ih
  | dot _ ih => exact ih
  | name _ hne _ hslash ih =>
    intro c hc
    rcases List.mem_append.mp hc with hc | hc
    · exact ih c hc
    · exact .inr (List.mem_singleton.mp hc ▸ ⟨hne, hslash⟩)

/-- The file name of a path is a name that an entry of a directory can have. -/
theorem isName_of_fileName? (h : fileName? path = some name) : IsName name := by
  rw [fileName?] at h
  split at h
  · cases h
  · cases h
  · cases h
  · rename_i hroot hdot hdots
    rcases (spells_components path).eq_root_or name (List.mem_of_getLast? h) with
      rfl | ⟨hne, hslash⟩
    · exact absurd h hroot
    · exact ⟨fun heq => hdot (heq ▸ h), fun heq => hdots (heq ▸ h), hne, hslash⟩

/-- A path into a directory is the name, or has it behind a slash. -/
theorem join_eq_or (dir : String) (hname : IsName name) :
    join dir name = name ∨ ∃ before, join dir name = before ++ "/" ++ name := by
  rw [join, hname.isAbsolute_eq, if_neg Bool.false_ne_true]
  split
  · exact .inl rfl
  · split
    · -- the slash is the last character of the directory
      rename_i hlast
      obtain ⟨before, hbefore⟩ := List.getLast?_eq_some_iff.mp hlast
      refine .inr ⟨String.ofList before, ?_⟩
      rw [← String.toList_inj]
      simp [hbefore]
    · exact .inr ⟨dir, rfl⟩

/-- The file name of a path into a directory is the last name, however the directory is
written. -/
theorem fileName?_join (dir : String) (hname : IsName name) :
    fileName? (join dir name) = some name := by
  rcases join_eq_or dir hname with heq | ⟨before, heq⟩
  · rw [heq, hname.fileName?_eq]
  · have hslash : name ≠ "/" := by
      rintro rfl
      exact hname.no_slash (by decide)
    rw [heq, fileName?, components_append_slash, below_of_no_slash hname.no_slash,
      if_neg (by simp [hname.ne_empty, hname.ne_dot]), List.getLast?_concat]
    simp [hslash, hname.ne_dot, hname.ne_dots]

end Path

/-! ## Stamps -/

namespace History

variable {path name : String} {t : Int}

/-- A path has the stamp of its file name. -/
theorem stamp?_of_fileName? (h : Path.fileName? path = some name) : stamp? path = stamp? name := by
  simp only [stamp?, Path.extension?, Path.stem?, h, (Path.isName_of_fileName? h).fileName?_eq]

theorem stamp?_pathOf (h : History) (hname : Path.IsName name) :
    stamp? (h.pathOf name) = stamp? name :=
  stamp?_of_fileName? (Path.fileName?_join h.directory hname)

/-- A path without a file name has no stamp. -/
theorem exists_fileName?_of_stamp? (h : stamp? path = some t) :
    ∃ name, Path.fileName? path = some name := by
  cases hname : Path.fileName? path with
  | none => simp [stamp?, Path.extension?, hname] at h
  | some name => exact ⟨name, rfl⟩

/-- A name with a stamp: between its fixed beginning and its extension it spells the stamp, which
is a number of 64 bits. -/
def StampedName (name : String) (stamp : Int) : Prop :=
  ∃ number, name = "evaluation-" ++ String.ofList number ++ ".json" ∧
    Text.SpellsInteger number stamp ∧ -2 ^ 63 ≤ stamp ∧ stamp < 2 ^ 63

/-- **The stamp of a name** is the one that it spells. -/
theorem stamp?_eq_some_iff_stampedName (h : '/' ∉ name.toList) :
    stamp? name = some t ↔ StampedName name t := by
  have htext : ∀ number : List Char,
      name.toList = namePrefix.toList ++ number ++ '.' :: nameExtension.toList ↔
        name = "evaluation-" ++ String.ofList number ++ ".json" := by
    intro number
    rw [← String.toList_inj]
    simp [namePrefix, nameExtension]
  simp only [stamp?_eq_some_iff h, htext, Text.signed64?_eq_some_iff, StampedName]

-- one beyond 64 bits, no digits, and other text around them
example : ["evaluation-9223372036854775808.json", "evaluation-+.json", "evaluation-1.JSON",
    "Evaluation-1.json", "evaluation- 1.json"].filterMap stamp? = [] := by decide +kernel

/-- **The stamp of a path** is the one that its file name spells. -/
theorem stamp?_eq_some_iff_fileName? :
    stamp? path = some t ↔ ∃ name, Path.fileName? path = some name ∧ StampedName name t := by
  constructor
  · intro h
    obtain ⟨name, hname⟩ := exists_fileName?_of_stamp? h
    refine ⟨name, hname, ?_⟩
    rwa [← stamp?_eq_some_iff_stampedName (Path.isName_of_fileName? hname).no_slash,
      ← stamp?_of_fileName? hname]
  · rintro ⟨name, hname, hstamped⟩
    rwa [stamp?_of_fileName? hname,
      stamp?_eq_some_iff_stampedName (Path.isName_of_fileName? hname).no_slash]

/-- The path that is given for a second of 64 bits has that stamp, in every directory. -/
theorem stamp?_pathOf_nameOf (h : History) (ht : Text.fitsSigned64 t = true) :
    stamp? (h.pathOf (nameOf t)) = some t := by
  rw [stamp?_pathOf h (isName_nameOf t), stamp?_nameOf ht]

/-- The second of a save is not before the asked one, and no more seconds are between them than
there are entries. -/
theorem freeStamp_bounds (h : History) (files : FileTree) (first : Int) :
    first ≤ h.freeStamp files first ∧
      h.freeStamp files first ≤ first + ((files.list? h.directory).getD []).length := by
  rw [freeStamp]
  generalize ((files.list? h.directory).getD []).length = count
  cases hfind : ((List.range (count + 1)).map fun n : Nat => first + Int.ofNat n).find?
      fun stamp => !files.hasPath (h.pathOf (nameOf stamp)) with
  | none =>
    rw [Option.getD_none]
    omega
  | some stamp =>
    obtain ⟨n, hn, rfl⟩ := List.mem_map.mp (List.mem_of_find?_eq_some hfind)
    have := List.mem_range.mp hn
    rw [Option.getD_some, Int.ofNat_eq_natCast]
    omega

/-- **Names say their stamps exactly**, in every history.

* The path that is given for a second has that stamp, whichever number of 64 bits it is.
* Different seconds have different paths.
* A path has a stamp just if its file name spells it; so has a name itself, and what spells no
  stamp has none.
* Every file that is saved has its own stamp, not before the second of the save, as long as the
  seconds do not run out of 64 bits. -/
theorem stamps_exact (h : History) :
    (∀ t : Int64, stamp? (h.pathOf (nameOf t.toInt)) = some t.toInt) ∧
    (Function.Injective fun t : Int64 => h.pathOf (nameOf t.toInt)) ∧
    (∀ path t, stamp? path = some t ↔
      ∃ name, Path.fileName? path = some name ∧ StampedName name t) ∧
    (∀ name : String, '/' ∉ name.toList →
      (∀ t, stamp? name = some t ↔ StampedName name t) ∧
      (stamp? name = none ↔ ∀ t, ¬ StampedName name t)) ∧
    ∀ (files files' : FileTree) (e : Evaluation) (first : Int64) (path : String),
      first.toInt + ((files.list? h.directory).getD []).length < 2 ^ 63 →
      h.save files e first.toInt = .ok (path, files') →
      ∃ t, first.toInt ≤ t ∧ path = h.pathOf (nameOf t) ∧ stamp? path = some t := by
  have hstamp : ∀ t : Int64, stamp? (h.pathOf (nameOf t.toInt)) = some t.toInt := fun t =>
    stamp?_pathOf_nameOf h (Text.fitsSigned64_iff.mpr ⟨t.le_toInt, t.toInt_lt⟩)
  refine ⟨hstamp, ?_, fun _ _ => stamp?_eq_some_iff_fileName?, ?_, ?_⟩
  · intro s t hpath
    have hstamps := congrArg stamp? hpath
    rw [hstamp s, hstamp t] at hstamps
    exact Int64.toInt_inj.mp (Option.some.inj hstamps)
  · intro name hslash
    refine ⟨fun t => stamp?_eq_some_iff_stampedName hslash, ?_⟩
    simp only [Option.eq_none_iff_forall_ne_some, ne_eq, stamp?_eq_some_iff_stampedName hslash]
  · intro files files' e first path hroom hs
    obtain ⟨rfl, -⟩ := save_eq_ok hs
    obtain ⟨hle, hge⟩ := freeStamp_bounds h files first.toInt
    have hfirst := first.le_toInt
    refine ⟨_, hle, rfl, stamp?_pathOf_nameOf h (Text.fitsSigned64_iff.mpr ?_)⟩
    omega

/-- The least stamp is read back, a plus and zeros may be in the spelling of a stamp, and a save
has its own. -/
theorem stamps_exact_spellings :
    stamp? ((ofWorkspace "." 1).pathOf "evaluation--9223372036854775808.json") =
      some (-9223372036854775808) ∧
    stamp? "evaluation-+007.json" = some 7 ∧
    ∃ t path files', (ofWorkspace "." 1).save shelf passed 60 = .ok (path, files') ∧
      60 ≤ t ∧ path = (ofWorkspace "." 1).pathOf (nameOf t) ∧ stamp? path = some t := by
  obtain ⟨hstamp, -, -, hnames, hsaves⟩ := stamps_exact (ofWorkspace "." 1)
  have hseven : Text.SpellsNumber ['0', '0', '7'] 7 :=
    .more (.more (.digit (d := 0) (by decide)) (d := 0) (by decide)) (d := 7) (by decide)
  obtain ⟨-, path, files', hs⟩ := save_shelf 60 (by decide +kernel)
  have hroom : (60 : Int64).toInt + ((shelf.list? (ofWorkspace "." 1).directory).getD []).length <
      2 ^ 63 := by
    rw [list?_shelf]
    decide
  obtain ⟨t, hle, hpath, ht⟩ := hsaves shelf files' passed 60 path hroom hs
  refine ⟨hstamp Int64.minValue, ((hnames "evaluation-+007.json" (by decide)).1 7).mpr ?_,
    t, path, files', hs, hle, hpath, ht⟩
  exact ⟨['+', '0', '0', '7'], by decide, .plus hseven, by decide, by decide⟩

end History

end Checkup
