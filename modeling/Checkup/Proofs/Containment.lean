import Checkup.Proofs.Paths
import Checkup.Source
import Mathlib.Data.Nat.Find

/-!
# Paths that contain others

What the components of a path are, and which settings count for a source:

* `Path.Spells` — the components of a path as a grammar of its text; they are those that are
  computed (`spells_iff`).
* `Path.Contains` — the components of one path begin those of another. More text behind a slash
  changes nothing about that (`Contains.slash`), and a longer last name undoes it
  (`not_contains_append`).
* `Sources.FirstAround` — the place of the first configured path around a source.
* `Sources.lookup_by_components` — looking up, in these terms.
-/

namespace Checkup

namespace Path

open Text (pieces pieces_ne_nil pieces_of_notMem pieces_append_cons)

variable {path base text : String} {cs : List String}

/-! ## Components behind a slash -/

theorem exists_pieces_cons (path : String) : ∃ first rest, pieces '/' path.toList = first :: rest :=
  List.exists_cons_of_ne_nil (pieces_ne_nil path.toList)

theorem pieces_append_slash (path text : String) :
    pieces '/' (path ++ "/" ++ text).toList = pieces '/' path.toList ++ pieces '/' text.toList := by
  simp [pieces_append_cons]

theorem pieces_slash (path : String) :
    pieces '/' (path ++ "/").toList = pieces '/' path.toList ++ [[]] := by
  simpa [pieces] using pieces_append_slash path ""

/-- Only the empty text has one empty piece. -/
theorem eq_empty_of_pieces (h : pieces '/' path.toList = [[]]) : path = "" := by
  rw [← String.toList_eq_nil_iff]
  cases hcs : path.toList with
  | nil => rfl
  | cons c rest =>
    rw [hcs, pieces] at h
    split at h
    · exact absurd (List.cons.inj h).2 (pieces_ne_nil rest)
    · split at h <;> simp at h

/-- The components that a text behind a slash stands for. -/
def below (text : String) : List String :=
  ((pieces '/' text.toList).filter isSignificant).map String.ofList

theorem below_of_no_slash (h : '/' ∉ text.toList) :
    below text = if text = "" ∨ text = "." then [] else [text] := by
  rw [below, pieces_of_notMem h]
  by_cases hskip : text = "" ∨ text = "."
  · rcases hskip with rfl | rfl <;> rfl
  · rw [not_or] at hskip
    have hsignificant : isSignificant text.toList = true := by
      simpa [isSignificant_iff] using hskip
    simp [hsignificant, hskip]

/-- What stands behind a slash adds its components. -/
theorem components_append_slash (path text : String) :
    components (path ++ "/" ++ text) = components (path ++ "/") ++ below text := by
  obtain ⟨first, rest, hpath⟩ := exists_pieces_cons path
  rw [components, components, pieces_append_slash, pieces_slash, hpath, below]
  by_cases hfirst : first = []
  · simp [hfirst, pieces_ne_nil, isSignificant]
  · simp [hfirst, isSignificant]

/-- A slash at the end counts only for the root. -/
theorem components_slash (hne : path ≠ "") : components (path ++ "/") = components path := by
  obtain ⟨first, rest, hpath⟩ := exists_pieces_cons path
  rw [components, components, pieces_slash, hpath]
  by_cases hfirst : first = []
  · have hrest : rest ≠ [] := by
      rintro rfl
      exact hne (eq_empty_of_pieces (hfirst ▸ hpath))
    simp [hfirst, hrest, isSignificant]
  · simp [hfirst, isSignificant]

/-! ## The grammar of paths -/

/-- The components of a path: repeated slashes, slashes at the end and dots behind a slash do not
count; a dot at the start does, and so does a slash at the start. -/
inductive Spells : String → List String → Prop
  /-- there is nothing -/
  | empty : Spells "" []
  /-- a name at the start, which may be a dot -/
  | first {name : String} : name ≠ "" → '/' ∉ name.toList → Spells name [name]
  /-- a slash at the start -/
  | root : Spells "/" ["/"]
  /-- a slash behind anything else -/
  | slash {path : String} {cs : List String} :
      path ≠ "" → Spells path cs → Spells (path ++ "/") cs
  /-- a dot behind a slash -/
  | dot {path : String} {cs : List String} :
      Spells (path ++ "/") cs → Spells (path ++ "/" ++ ".") cs
  /-- any other name behind a slash -/
  | name {path name : String} {cs : List String} : Spells (path ++ "/") cs → name ≠ "" →
      name ≠ "." → '/' ∉ name.toList → Spells (path ++ "/" ++ name) (cs ++ [name])

theorem Spells.components_eq (h : Spells path cs) : components path = cs := by
  induction h with
  | empty => rfl
  | first hne hslash => exact components_of_no_slash hne hslash
  | root => rfl
  | slash hne _ ih => rw [components_slash hne, ih]
  | dot _ ih =>
    rw [components_append_slash, ih, below_of_no_slash (by decide)]
    simp
  | name _ hne hdot hslash ih =>
    rw [components_append_slash, ih, below_of_no_slash hslash]
    simp [hne, hdot]

/-- A path has no slash, or a last one. -/
theorem no_slash_or_last (path : String) :
    '/' ∉ path.toList ∨ ∃ before last, path = before ++ "/" ++ last ∧ '/' ∉ last.toList := by
  refine or_iff_not_imp_left.mpr fun h => ?_
  obtain ⟨last, before, hsplit, hlast⟩ :=
    List.eq_append_cons_of_mem (List.mem_reverse.mpr (not_not.mp h))
  refine ⟨String.ofList before.reverse, String.ofList last.reverse, ?_, by simpa using hlast⟩
  rw [← String.toList_inj, ← List.reverse_inj, hsplit]
  simp

/-- Every path is spelled out. -/
theorem spells_components (path : String) : Spells path (components path) := by
  -- what stands before the last name of a path is shorter than the path
  induction hn : path.toList.length using Nat.strongRecOn generalizing path with
  | ind n ih =>
    subst hn
    rcases no_slash_or_last path with hslash | ⟨before, last, rfl, hlast⟩
    · by_cases hne : path = ""
      · exact hne ▸ .empty
      · rw [components_of_no_slash hne hslash]
        exact .first hne hslash
    · by_cases hempty : last = ""
      · subst hempty
        rw [String.append_empty]
        by_cases hbefore : before = ""
        · exact hbefore ▸ .root
        · rw [components_slash hbefore]
          exact .slash hbefore (ih _ (by simp) before rfl)
      · have hlength : 0 < last.toList.length :=
          List.length_pos_iff.mpr fun hnil => hempty (String.toList_eq_nil_iff.mp hnil)
        have hbefore := ih _ (by simpa using hlength) (before ++ "/") rfl
        rw [components_append_slash, below_of_no_slash hlast]
        by_cases hdot : last = "."
        · subst hdot
          simpa using hbefore.dot
        · simpa [hempty, hdot] using hbefore.name hempty hdot hlast

/-- **The components of a path** are those that its text spells. -/
theorem spells_iff : Spells path cs ↔ components path = cs :=
  ⟨Spells.components_eq, fun h => h ▸ spells_components path⟩

/-! ## Containment -/

/-- The components of one path begin those of another. -/
def Contains (base path : String) : Prop :=
  ∃ cs rest, Spells base cs ∧ Spells path (cs ++ rest)

theorem contains_iff_components : Contains base path ↔ components base <+: components path := by
  simp only [Contains, spells_iff, exists_and_left, exists_eq_left', List.IsPrefix,
    eq_comm (a := components path)]

theorem isWithin_iff : isWithin path base = true ↔ Contains base path := by
  rw [contains_iff_components, isWithin, List.isPrefixOf_iff_prefix]

instance : Decidable (Contains base path) := decidable_of_iff _ contains_iff_components.symm

theorem contains_refl (path : String) : Contains path path :=
  contains_iff_components.mpr (List.prefix_refl _)

/-- What is added behind a slash stays within. -/
theorem Contains.slash (h : Contains base path) (text : String) :
    Contains base (path ++ "/" ++ text) := by
  refine contains_iff_components.mpr ((contains_iff_components.mp h).trans ?_)
  by_cases hne : path = ""
  · subst hne
    exact List.nil_prefix
  · rw [components_append_slash, components_slash hne]
    exact List.prefix_append _ _

theorem isSignificant_of_length : ∀ {piece : List Char}, 1 < piece.length →
    isSignificant piece = true
  | _ :: _ :: _, _ => by simp [isSignificant]

/-- A name that goes on makes the first piece longer. -/
theorem exists_longer_piece {name more : List Char} {c : Char} (hname : '/' ∉ name)
    (hmore : more.head? = some c) (hc : c ≠ '/') :
    ∃ longer rest, name.length < longer.length ∧ pieces '/' (name ++ more) = longer :: rest := by
  induction name with
  | nil =>
    obtain ⟨cs, rfl⟩ := List.head?_eq_some_iff.mp hmore
    rw [List.nil_append, pieces, if_neg hc]
    split
    · exact ⟨[c], [], by simp, rfl⟩
    · exact ⟨c :: _, _, by simp, rfl⟩
  | cons d name ih =>
    obtain ⟨hd, hname⟩ := not_or.mp (mt List.mem_cons.mpr hname)
    obtain ⟨longer, rest, hlength, hpieces⟩ := ih hname
    refine ⟨d :: longer, rest, Nat.succ_lt_succ hlength, ?_⟩
    rw [List.cons_append, pieces, if_neg (Ne.symm hd), hpieces]

/-- **No path contains what only makes its last name longer**: containment goes by whole
components. -/
theorem not_contains_append {more : String} {c : Char} (hne : base ≠ "")
    (hslash : base.toList.getLast? ≠ some '/') (hdot : ¬ ['/', '.'] <:+ base.toList)
    (hmore : more.toList.head? = some c) (hc : c ≠ '/') : ¬ Contains base (base ++ more) := by
  have hother : ∀ {name : String} {longer : List Char}, name.toList.length < longer.length →
      name ≠ String.ofList longer := by
    rintro _ longer hlength rfl
    simp at hlength
  rw [contains_iff_components]
  rcases no_slash_or_last base with hbase | ⟨before, last, rfl, hlast⟩
  · obtain ⟨longer, rest, hlength, hpieces⟩ := exists_longer_piece hbase hmore hc
    have hfirst : longer ≠ [] := List.length_pos_iff.mp (Nat.zero_lt_of_lt hlength)
    have hlonger : components (base ++ more) =
        String.ofList longer :: (rest.filter isSignificant).map String.ofList := by
      simp [components, hpieces, hfirst]
    rw [components_of_no_slash hne hbase, hlonger, List.cons_prefix_cons]
    exact fun h => hother hlength h.1
  · have hempty : last ≠ "" := by
      rintro rfl
      simp at hslash
    have hname : last ≠ "." := by
      rintro rfl
      exact hdot ⟨before.toList, by simp⟩
    obtain ⟨longer, rest, hlength, hpieces⟩ := exists_longer_piece hlast hmore hc
    have hpos : 0 < last.toList.length :=
      List.length_pos_iff.mpr fun hnil => hempty (String.toList_eq_nil_iff.mp hnil)
    have hsignificant : isSignificant longer = true := isSignificant_of_length (by omega)
    have hlonger : below (last ++ more) =
        String.ofList longer :: (rest.filter isSignificant).map String.ofList := by
      simp [below, hpieces, hsignificant]
    have hjoined : before ++ "/" ++ last ++ more = before ++ "/" ++ (last ++ more) :=
      String.append_assoc
    rw [hjoined, components_append_slash, components_append_slash, hlonger,
      below_of_no_slash hlast, if_neg (by simp [hempty, hname]), List.prefix_append_right_inj,
      List.cons_prefix_cons]
    exact fun h => hother hlength h.1

end Path

/-! ## Looking up -/

namespace Sources

variable {sources : Sources} {source base : String} {place : Nat} {settings : SourceSettings}

/-- The place of the first configured path around a source, with its settings. -/
structure FirstAround (sources : Sources) (source : String) (place : Nat)
    (settings : SourceSettings) : Prop where
  /-- the path there contains the source -/
  here : ∃ base, sources.entries[place]? = some (base, settings) ∧ Path.Contains base source
  /-- no path before it does -/
  first : ∀ earlier < place, ∀ e, sources.entries[earlier]? = some e → ¬ Path.Contains e.1 source

/-- Settings are looked up at the first path around a source. -/
theorem lookup_eq_some_iff : sources.lookup source = some settings ↔
    ∃ place, sources.FirstAround source place settings := by
  rw [lookup, Option.map_eq_some_iff]
  constructor
  · rintro ⟨⟨base, settings⟩, hfind, rfl⟩
    obtain ⟨hbase, place, hlt, hentry, hbefore⟩ := List.find?_eq_some_iff_getElem.mp hfind
    refine ⟨place, ⟨base, List.getElem?_eq_some_iff.mpr ⟨hlt, hentry⟩,
      Path.isWithin_iff.mp hbase⟩, fun earlier hearlier e he => ?_⟩
    obtain ⟨-, rfl⟩ := List.getElem?_eq_some_iff.mp he
    rw [← Path.isWithin_iff, Bool.not_eq_true]
    simpa using hbefore earlier hearlier
  · rintro ⟨place, ⟨base, hentry, hbase⟩, hfirst⟩
    obtain ⟨hlt, hentry⟩ := List.getElem?_eq_some_iff.mp hentry
    refine ⟨(base, settings), List.find?_eq_some_iff_getElem.mpr ⟨Path.isWithin_iff.mpr hbase,
      place, hlt, hentry, fun earlier hearlier => ?_⟩, rfl⟩
    rw [Bool.not_eq_true', Bool.eq_false_iff, ne_eq, Path.isWithin_iff]
    exact hfirst earlier hearlier _ (List.getElem?_eq_getElem (Nat.lt_trans hearlier hlt))

/-- Nothing is looked up just if no path contains the source. -/
theorem lookup_eq_none_iff : sources.lookup source = none ↔
    ∀ e ∈ sources.entries, ¬ Path.Contains e.1 source := by
  simp only [lookup, Option.map_eq_none_iff, List.find?_eq_none, Path.isWithin_iff]

/-- A path around a source is the first one, or there is one before it. -/
theorem exists_firstAround (hentry : sources.entries[place]? = some (base, settings))
    (h : Path.Contains base source) :
    ∃ earlier ≤ place, ∃ found, sources.FirstAround source earlier found := by
  classical
  have hsome : ∃ place, ∃ e : String × SourceSettings,
      sources.entries[place]? = some e ∧ Path.Contains e.1 source :=
    ⟨place, _, hentry, h⟩
  obtain ⟨⟨around, found⟩, hat, haround⟩ := Nat.find_spec hsome
  refine ⟨Nat.find hsome, Nat.find_min' hsome ⟨_, hentry, h⟩, found, ⟨around, hat, haround⟩, ?_⟩
  intro earlier hearlier e he hcontains
  exact Nat.find_min hsome hearlier ⟨e, he, hcontains⟩

/-- The first path around a source is unique. -/
theorem FirstAround.unique {other : Nat} {found : SourceSettings}
    (h : sources.FirstAround source place settings)
    (h' : sources.FirstAround source other found) : place = other := by
  obtain ⟨base, hentry, hbase⟩ := h.here
  obtain ⟨base', hentry', hbase'⟩ := h'.here
  rcases Nat.lt_trichotomy place other with hlt | heq | hlt
  · exact absurd hbase (h'.first place hlt _ hentry)
  · exact heq
  · exact absurd hbase' (h.first other hlt _ hentry')

/-- **Settings are looked up by components**, whatever paths are configured in whatever order.

* What is looked up are the settings at the first configured path whose components begin those of
  the source; the components are those that the texts spell.
* There is one first path at most.
* Containment goes by whole components: a longer last name is another name.
* Every configured path, and whatever is added to it behind a slash, is found at its place or
  before it.
* Whatever is added behind a slash to a source that is found is found at its place or before it. -/
theorem lookup_by_components (sources : Sources) :
    (∀ source settings, sources.lookup source = some settings ↔
      ∃ place, sources.FirstAround source place settings) ∧
    (∀ source, sources.lookup source = none ↔
      ∀ e ∈ sources.entries, ¬ Path.Contains e.1 source) ∧
    (∀ source place other settings found, sources.FirstAround source place settings →
      sources.FirstAround source other found → place = other) ∧
    (∀ (base more : String) (c : Char), base ≠ "" → base.toList.getLast? ≠ some '/' →
      ¬ ['/', '.'] <:+ base.toList → more.toList.head? = some c → c ≠ '/' →
      ¬ Path.Contains base (base ++ more)) ∧
    (∀ place base settings, sources.entries[place]? = some (base, settings) →
      ∀ source, (source = base ∨ ∃ text, source = base ++ "/" ++ text) →
      ∃ earlier ≤ place, ∃ found, sources.FirstAround source earlier found) ∧
    ∀ source place settings, sources.FirstAround source place settings →
      ∀ text, ∃ earlier ≤ place, ∃ found,
        sources.FirstAround (source ++ "/" ++ text) earlier found := by
  refine ⟨fun _ _ => lookup_eq_some_iff, fun _ => lookup_eq_none_iff,
    fun _ _ _ _ _ => FirstAround.unique, fun _ _ _ => Path.not_contains_append, ?_, ?_⟩
  · rintro place base settings hentry source (rfl | ⟨text, rfl⟩)
    · exact exists_firstAround hentry (Path.contains_refl source)
    · exact exists_firstAround hentry ((Path.contains_refl base).slash text)
  · intro source place settings hfirst text
    obtain ⟨base, hentry, hbase⟩ := hfirst.here
    exact exists_firstAround hentry (hbase.slash text)

/-- Sources within one another, but for the dot that the first one starts with. -/
def overlapping : Sources :=
  .ofList [("./src//lib", { contexts := ["dotted"] }), ("src/lib/", { contexts := ["library"] }),
    ("src", { contexts := ["project"] })]

/-- A dot at the start makes another path, and a name is not within a shorter one. -/
theorem lookup_by_components_overlapping :
    overlapping.lookup "src//lib/./x.py" = some { contexts := ["library"] } ∧
    overlapping.lookup "src/library" = some { contexts := ["project"] } ∧
    overlapping.lookup "docs" = none := by
  obtain ⟨hsome, hnone, -⟩ := lookup_by_components overlapping
  refine ⟨(hsome _ _).mpr ⟨1, ⟨"src/lib/", rfl, by decide⟩, fun earlier hlt e he => ?_⟩,
    (hsome _ _).mpr ⟨2, ⟨"src", rfl, by decide⟩, fun earlier hlt e he => ?_⟩,
    (hnone _).mpr (by decide)⟩
  · obtain rfl : earlier = 0 := by omega
    obtain rfl := Option.some.inj he
    decide
  · obtain rfl | rfl : earlier = 0 ∨ earlier = 1 := by omega
    · obtain rfl := Option.some.inj he
      decide
    · obtain rfl := Option.some.inj he
      decide

end Sources

end Checkup
