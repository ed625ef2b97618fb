import Checkup.History
import Checkup.Proofs.Digits
import Checkup.Proofs.Paths
import Mathlib.Data.List.Sort

/-!
# Stamps of stored evaluations

What the names of stored evaluations say, and the order in which they are listed:

* `History.stamp?_eq_some_iff` — a name has a stamp just if it is the fixed beginning, a
  number and the extension; so the names that are given have theirs (`stamp?_nameOf`), and
  different seconds have different names (`nameOf_injective`).
* `History.notOlder_total`, `notOlder_trans`, `notOlder_antisymm` — newest first is a linear
  order.
* `History.stampedNames_eq` — a listing is decided by its names and that order (`Newer`); a
  new name has its place in it (`stampedNames_concat`).
* `History.mem_take_stampedNames` — a name is among the first of a listing if few names go
  before it.
-/

namespace Checkup

namespace Path

/-! ## Extensions -/

theorem fileName?_of_no_slash {name : String} (h : '/' ∉ name.toList) :
    fileName? name = if name = "" ∨ name = "." ∨ name = ".." then none else some name := by
  have hslash : name ≠ "/" := by
    rintro rfl
    exact h (by decide)
  by_cases hname : name = ""
  · subst hname
    decide
  · rw [fileName?, components_of_no_slash hname h]
    by_cases hdot : name = "."
    · simp [hdot]
    · by_cases hdots : name = ".."
      · simp [hdots]
      · simp [hname, hdot, hdots, hslash]

/-- A file name has an extension just if a dot, not its first character, is before it. -/
theorem splitExtension_eq_iff {name stem extension : String} :
    splitExtension name = (stem, some extension) ↔
      name ≠ ".." ∧ stem ≠ "" ∧ '.' ∉ extension.toList ∧ name = stem ++ "." ++ extension := by
  by_cases hdots : name = ".."
  · simp [splitExtension, hdots]
  have hsplit := List.takeWhile_append_dropWhile (p := (· ≠ '.')) (l := name.toList.reverse)
  have hbefore : '.' ∉ name.toList.reverse.takeWhile (· ≠ '.') := by
    intro hmem
    simpa using List.all_eq_true.mp List.all_takeWhile _ hmem
  constructor
  · intro h
    rw [splitExtension, if_neg hdots] at h
    dsimp only at h
    have hhead := List.head?_dropWhile_not (· ≠ '.') name.toList.reverse
    cases hdrop : name.toList.reverse.dropWhile (· ≠ '.') with
    | nil =>
      rw [hdrop] at h
      cases h
    | cons c rest =>
      rw [hdrop] at h hsplit hhead
      obtain rfl : c = '.' := by simpa using hhead
      cases rest with
      | nil => cases h
      | cons d rest =>
        simp only [Prod.mk.injEq, Option.some.injEq] at h
        obtain ⟨rfl, rfl⟩ := h
        refine ⟨hdots, by simp, by simpa using hbefore, ?_⟩
        rw [← String.toList_inj, ← List.reverse_inj, ← hsplit]
        simp only [String.toList_append, String.toList_ofList, List.reverse_append,
          List.reverse_reverse, hsplit]
        simpa using hsplit.symm
  · rintro ⟨-, hstem, hdot, hname⟩
    have hreverse : name.toList.reverse =
        extension.toList.reverse ++ '.' :: stem.toList.reverse := by
      simp [hname]
    have hpos : ∀ c ∈ extension.toList.reverse, decide (c ≠ '.') = true := by
      intro c hc
      have hc' : c ≠ '.' := fun he => hdot (he ▸ List.mem_reverse.mp hc)
      simpa using hc'
    obtain ⟨c, cs, hcs⟩ : ∃ c cs, stem.toList.reverse = c :: cs :=
      List.exists_cons_of_ne_nil (by simpa using hstem)
    rw [splitExtension, if_neg hdots, hreverse]
    dsimp only
    rw [List.takeWhile_append_of_pos hpos, List.dropWhile_append_of_pos hpos, hcs,
      List.takeWhile_cons_of_neg (by simp), List.dropWhile_cons_of_neg (by simp)]
    simp [← hcs]

end Path

namespace History

/-- What starts like a name with a stamp is not empty and not made of dots. -/
theorem ne_dots_of_prefix {name : String} {rest : List Char}
    (h : name.toList = namePrefix.toList ++ rest) : name ≠ "" ∧ name ≠ "." ∧ name ≠ ".." := by
  have hhead : name.toList.head? = some 'e' := by
    rw [h]
    rfl
  refine ⟨?_, ?_, ?_⟩ <;> rintro rfl <;> revert hhead <;> decide

/-- **The names with a stamp**: the fixed beginning, a number and the extension. -/
theorem stamp?_eq_some_iff {name : String} {stamp : Int} (h : '/' ∉ name.toList) :
    stamp? name = some stamp ↔
      ∃ number : List Char,
        name.toList = namePrefix.toList ++ number ++ '.' :: nameExtension.toList ∧
          Text.signed64? number = some stamp := by
  constructor
  · intro hstamp
    rw [stamp?] at hstamp
    split at hstamp
    · rename_i hextension
      simp only [bind, Option.bind_eq_some_iff] at hstamp
      obtain ⟨stem, hstem, number, hnumber, hstamp⟩ := hstamp
      refine ⟨number, ?_, hstamp⟩
      rw [Path.stem?, Option.map_eq_some_iff] at hstem
      obtain ⟨file, hfile, hstem⟩ := hstem
      rw [Path.extension?, hfile, Option.bind_some] at hextension
      rw [Path.fileName?_of_no_slash h] at hfile
      split at hfile
      · cases hfile
      · cases hfile
        obtain ⟨-, -, -, hname⟩ := Path.splitExtension_eq_iff.mp (Prod.ext hstem hextension)
        rw [dropBeginning?] at hnumber
        split at hnumber
        · rename_i hprefix
          cases hnumber
          obtain ⟨rest, hrest⟩ := List.isPrefixOf_iff_prefix.mp hprefix
          simp [hname, ← hrest]
        · cases hnumber
    · cases hstamp
  · rintro ⟨number, hname, hnumber⟩
    obtain ⟨hempty, hdot, hdots⟩ := ne_dots_of_prefix hname
    have hsplit : Path.splitExtension name =
        (namePrefix ++ String.ofList number, some nameExtension) := by
      refine Path.splitExtension_eq_iff.mpr ⟨hdots, ?_, by decide, ?_⟩
      · rw [ne_eq, ← String.toList_eq_nil_iff, String.toList_append]
        exact List.append_ne_nil_of_left_ne_nil (by decide) _
      · rw [← String.toList_inj, hname]
        simp
    have hfile : Path.fileName? name = some name := by
      rw [Path.fileName?_of_no_slash h]
      simp [hempty, hdot, hdots]
    simp [stamp?, Path.extension?, Path.stem?, hfile, hsplit, dropBeginning?, hnumber]

/-- A name with a stamp is a name that an entry of a directory can have. -/
theorem isName_of_stamp? {name : String} {stamp : Int} (h : '/' ∉ name.toList)
    (hstamp : stamp? name = some stamp) : Path.IsName name := by
  obtain ⟨number, hname, -⟩ := (stamp?_eq_some_iff h).mp hstamp
  obtain ⟨hempty, hdot, hdots⟩ := ne_dots_of_prefix hname
  exact ⟨hdot, hdots, hempty, h⟩

theorem no_slash_nameOf (stamp : Int) : '/' ∉ (nameOf stamp).toList := by
  have hdigits : '/' ∉ Nat.toDigits 10 stamp.natAbs := fun hmem =>
    absurd (Nat.isDigit_of_mem_toDigits (b := 10) (by decide) (by decide) hmem) (by decide)
  have hnumber : '/' ∉ (toString stamp).toList := by
    rw [Text.toList_toString_int]
    split
    · simpa using hdigits
    · exact hdigits
  have hends : '/' ∉ namePrefix.toList ∧ '/' ∉ nameExtension.toList := by decide
  simpa [nameOf, hends] using hnumber

/-- **The names that are given have the stamps they are given for**, in 64 bits. -/
theorem stamp?_nameOf {stamp : Int} (h : Text.fitsSigned64 stamp = true) :
    stamp? (nameOf stamp) = some stamp := by
  refine (stamp?_eq_some_iff (no_slash_nameOf stamp)).mpr ⟨_, ?_, Text.signed64?_toString h⟩
  simp [nameOf]

/-- The names that are given are those of different seconds. -/
theorem nameOf_injective : Function.Injective nameOf := by
  intro s t h
  have htext : (toString s).toList = (toString t).toList := by
    have hlist := congrArg String.toList h
    simp only [nameOf, String.toList_append, List.append_assoc] at hlist
    exact List.append_cancel_right (List.append_cancel_left hlist)
  rw [Text.toList_toString_int, Text.toList_toString_int] at htext
  -- a number starts with a sign just if it is negative
  have hsign : ∀ n : Nat, ∀ cs, Nat.toDigits 10 n ≠ '-' :: cs := by
    intro n cs heq
    have hspelled : Text.SpellsNumber ('-' :: cs) n := heq ▸ Text.spellsNumber_toDigits n
    exact hspelled.ne_sign.2 rfl
  have hsize : ∀ {m n : Nat}, Nat.toDigits 10 m = Nat.toDigits 10 n → m = n := by
    intro m n heq
    rw [← Text.decimalNumber_toDigits m, heq, Text.decimalNumber_toDigits]
  split at htext <;> split at htext
  · have := hsize (List.cons.inj htext).2
    omega
  · exact absurd htext.symm (hsign _ _)
  · exact absurd htext (hsign _ _)
  · have := hsize htext
    omega

/-! ## Newest first -/

theorem notOlder_iff {a b : Int × String} :
    notOlder a b = true ↔ b.1 < a.1 ∨ a.1 = b.1 ∧ b.2 ≤ a.2 := by
  rw [notOlder]
  split
  · rename_i heq
    simp [heq]
  · rename_i hne
    simp [hne]

theorem notOlder_total (a b : Int × String) : (notOlder a b || notOlder b a) = true := by
  rw [Bool.or_eq_true, notOlder_iff, notOlder_iff]
  rcases Int.lt_trichotomy a.1 b.1 with h | h | h
  · exact .inr (.inl h)
  · exact (String.le_total b.2 a.2).imp (fun hle => .inr ⟨h, hle⟩) fun hle => .inr ⟨h.symm, hle⟩
  · exact .inl (.inl h)

theorem notOlder_trans (a b c : Int × String) (hab : notOlder a b = true)
    (hbc : notOlder b c = true) : notOlder a c = true := by
  rw [notOlder_iff] at *
  rcases hab with hab | ⟨hab, hab'⟩
  · exact .inl (by omega)
  · rcases hbc with hbc | ⟨hbc, hbc'⟩
    · exact .inl (by omega)
    · exact .inr ⟨hab.trans hbc, String.le_trans hbc' hab'⟩

theorem notOlder_antisymm {a b : Int × String} (hab : notOlder a b = true)
    (hba : notOlder b a = true) : a = b := by
  rw [notOlder_iff] at *
  rcases hab with hab | ⟨hab, hab'⟩
  · omega
  · rcases hba with hba | ⟨-, hba'⟩
    · omega
    · exact Prod.ext hab (String.le_antisymm hba' hab')

/-- The names with their stamps. -/
def stamped (names : List String) : List (Int × String) :=
  names.filterMap fun name => (stamp? name).map (·, name)

theorem mem_stamped {names : List String} {stamp : Int} {name : String} :
    (stamp, name) ∈ stamped names ↔ name ∈ names ∧ stamp? name = some stamp := by
  rw [stamped, List.mem_filterMap]
  constructor
  · rintro ⟨other, hother, heq⟩
    obtain ⟨s, hs, heq⟩ := Option.map_eq_some_iff.mp heq
    cases heq
    exact ⟨hother, hs⟩
  · rintro ⟨hname, hstamp⟩
    exact ⟨name, hname, by rw [hstamp]; rfl⟩

/-- The names that are listed before another one. -/
def listedBefore (names : List String) (stamp : Int) (name : String) : List String :=
  names.filter fun other =>
    other ≠ name && (stamp? other).any fun s => notOlder (s, other) (stamp, name)

/-- The names in their order are those with a stamp. -/
theorem mem_stampedNames {names : List String} {name : String} :
    name ∈ stampedNames names ↔ name ∈ names ∧ (stamp? name).isSome = true := by
  have hmem : name ∈ stampedNames names ↔ ∃ stamp, (stamp, name) ∈ stamped names := by
    simp [stampedNames, stamped]
  rw [hmem, Option.isSome_iff_exists]
  simp only [mem_stamped, exists_and_left]

theorem map_snd_stamped (names : List String) :
    (stamped names).map Prod.snd = names.filter fun name => (stamp? name).isSome := by
  induction names with
  | nil => rfl
  | cons name rest ih =>
    rw [stamped] at ih ⊢
    cases hstamp : stamp? name with
    | none => simpa [hstamp] using ih
    | some stamp => simpa [hstamp] using ih

/-- Of distinct names, every one is listed at most once. -/
theorem nodup_stampedNames {names : List String} (h : names.Nodup) :
    (stampedNames names).Nodup := by
  have hperm := (List.mergeSort_perm (stamped names) notOlder).map Prod.snd
  rw [map_snd_stamped] at hperm
  exact hperm.nodup_iff.mpr (h.filter _)

/-- Of two names with a stamp, whether the first goes before the second in a listing: its
stamp is higher, or it is the greater name of one stamp. -/
def Newer (a b : String) : Prop :=
  ∃ s t, stamp? a = some s ∧ stamp? b = some t ∧ (t < s ∨ s = t ∧ b < a)

instance (a b : String) : Decidable (Newer a b) :=
  decidable_of_iff
    ((stamp? a).any (fun s => (stamp? b).any fun t => t < s || s = t && b < a) = true)
    (by simp [Newer, Option.any_eq_true])

instance : Std.Asymm Newer where
  asymm := by
    rintro a b ⟨s, t, hs, ht, hab⟩ ⟨t', s', ht', hs', hba⟩
    obtain rfl := Option.some.inj (hs.symm.trans hs')
    obtain rfl := Option.some.inj (ht.symm.trans ht')
    rcases hab with hlt | ⟨rfl, hab⟩
    · rcases hba with hgt | ⟨rfl, -⟩
      · omega
      · omega
    · rcases hba with hgt | ⟨-, hba⟩
      · omega
      · exact String.lt_asymm hab hba

theorem newer_nameOf_iff {s t : Int} (hs : Text.fitsSigned64 s = true)
    (ht : Text.fitsSigned64 t = true) : Newer (nameOf s) (nameOf t) ↔ t < s := by
  constructor
  · rintro ⟨s', t', hs', ht', h⟩
    rw [stamp?_nameOf hs] at hs'
    rw [stamp?_nameOf ht] at ht'
    cases hs'
    cases ht'
    rcases h with h | ⟨rfl, h⟩
    · exact h
    · exact absurd h (String.lt_irrefl _)
  · exact fun h => ⟨s, t, stamp?_nameOf hs, stamp?_nameOf ht, .inl h⟩

/-- Names are listed newest first. -/
theorem pairwise_stampedNames {names : List String} (h : names.Nodup) :
    (stampedNames names).Pairwise Newer := by
  have hsorted := List.pairwise_mergeSort notOlder_trans notOlder_total (stamped names)
  have hnodup : ((stamped names).mergeSort notOlder).Pairwise fun a b => a.2 ≠ b.2 :=
    List.pairwise_map.mp (nodup_stampedNames h)
  rw [stampedNames, List.pairwise_map]
  refine (hsorted.and hnodup).imp_of_mem fun {a b} ha hb hab => ?_
  have hstamp : ∀ x ∈ (stamped names).mergeSort notOlder, stamp? x.2 = some x.1 := fun x hx =>
    (mem_stamped.mp (List.mem_mergeSort.mp hx)).2
  refine ⟨a.1, b.1, hstamp a ha, hstamp b hb, ?_⟩
  exact (notOlder_iff.mp hab.1).imp_right fun ⟨heq, hle⟩ =>
    ⟨heq, String.not_le.mp fun hge => hab.2 (String.le_antisymm hge hle)⟩

/-- **A listing is decided by its names**: it is the one list of them that is newest first. -/
theorem stampedNames_eq {names listed : List String} (h : names.Nodup)
    (hlisted : listed.Pairwise Newer)
    (hmem : ∀ name, name ∈ listed ↔ name ∈ names ∧ (stamp? name).isSome = true) :
    stampedNames names = listed :=
  (pairwise_stampedNames h).eq_of_mem_iff hlisted fun name =>
    mem_stampedNames.trans (hmem name).symm

/-- A new name is listed between those that are newer and those that are not. -/
theorem stampedNames_concat {names : List String} (newer older : List String) {name : String}
    (h : (names ++ [name]).Nodup) (hstamp : (stamp? name).isSome = true)
    (hlisted : stampedNames names = newer ++ older) (hnewer : ∀ other ∈ newer, Newer other name)
    (holder : ∀ other ∈ older, Newer name other) :
    stampedNames (names ++ [name]) = newer ++ name :: older := by
  have hsorted := pairwise_stampedNames (List.nodup_append.mp h).1
  rw [hlisted, List.pairwise_append] at hsorted
  obtain ⟨hsorted, hsorted', hbetween⟩ := hsorted
  refine stampedNames_eq h (List.pairwise_append.mpr ⟨hsorted, .cons holder hsorted', ?_⟩) ?_
  · intro a ha b hb
    rcases List.mem_cons.mp hb with rfl | hb
    · exact hnewer a ha
    · exact hbetween a ha b hb
  · intro other
    have hbefore : other ∈ newer ∨ other ∈ older ↔
        other ∈ names ∧ (stamp? other).isSome = true := by
      rw [← List.mem_append, ← hlisted, mem_stampedNames]
    rw [List.mem_append, List.mem_append, List.mem_cons, List.mem_singleton, or_and_right,
      ← hbefore, or_left_comm, or_comm]
    refine or_congr_right (and_iff_left_of_imp ?_).symm
    rintro rfl
    exact hstamp

/-- **What is listed first**: a name is among the first of a listing just if few enough
names are listed before it. -/
theorem mem_take_stampedNames {names : List String} {name : String} {stamp : Int}
    (h : names.Nodup) (hname : name ∈ names) (hstamp : stamp? name = some stamp) (limit : Nat) :
    name ∈ (stampedNames names).take limit ↔
      (listedBefore names stamp name).length < limit := by
  have hmem : (stamp, name) ∈ (stamped names).mergeSort notOlder :=
    List.mem_mergeSort.mpr (mem_stamped.mpr ⟨hname, hstamp⟩)
  obtain ⟨newer, older, hsplit⟩ := List.append_of_mem hmem
  have hsorted := List.pairwise_mergeSort notOlder_trans notOlder_total (stamped names)
  have hlisted : stampedNames names = newer.map Prod.snd ++ name :: older.map Prod.snd := by
    rw [stampedNames]
    exact (congrArg (List.map Prod.snd) hsplit).trans (by simp)
  have hnodup := nodup_stampedNames h
  rw [hsplit] at hsorted
  rw [hlisted] at hnodup ⊢
  obtain ⟨-, hrest, hdisjoint⟩ := List.nodup_append.mp hnodup
  have hnewer : name ∉ newer.map Prod.snd := fun hm =>
    hdisjoint name hm name List.mem_cons_self rfl
  have holder : name ∉ older.map Prod.snd := (List.nodup_cons.mp hrest).1
  -- what is listed before the name is what the sorted list has before it
  have hcount : (listedBefore names stamp name).length = newer.length := by
    let ahead : Int × String → Bool := fun x => x.2 ≠ name && notOlder x (stamp, name)
    have hfilter : (listedBefore names stamp name).length = (stamped names).countP ahead := by
      rw [listedBefore, ← List.countP_eq_length_filter, stamped, List.countP_filterMap]
      refine List.countP_congr fun other _ => ?_
      cases stamp? other <;> simp [ahead]
    have hbefore : newer.countP ahead = newer.length := by
      refine List.countP_eq_length.mpr fun x hx => ?_
      have hne : x.2 ≠ name := fun he => hnewer (List.mem_map.mpr ⟨x, hx, he⟩)
      have hle := (List.pairwise_append.mp hsorted).2.2 x hx _ List.mem_cons_self
      simp [ahead, hne, hle]
    have hafter : older.countP ahead = 0 := by
      refine List.countP_eq_zero.mpr fun x hx hx' => ?_
      have hle := (List.pairwise_cons.mp (List.pairwise_append.mp hsorted).2.1).1 x hx
      rw [Bool.and_eq_true] at hx'
      have heq := notOlder_antisymm hx'.2 hle
      exact holder (List.mem_map.mpr ⟨x, hx, congrArg Prod.snd heq⟩)
    rw [hfilter, ← (List.mergeSort_perm (stamped names) notOlder).countP_eq, hsplit,
      List.countP_append, List.countP_cons, hbefore, hafter]
    simp [ahead]
  rw [hcount]
  constructor
  · intro htake
    by_contra hlimit
    rw [List.take_append_of_le_length (by simpa using Nat.le_of_not_lt hlimit)] at htake
    exact hnewer (List.mem_of_mem_take htake)
  · intro hlimit
    obtain ⟨more, hmore⟩ : ∃ more, limit = newer.length + (more + 1) :=
      ⟨limit - newer.length - 1, by omega⟩
    have hlength : newer.length = (newer.map Prod.snd).length := by simp
    rw [hmore, hlength, List.take_length_add_append, List.take_succ_cons]
    simp

end History

end Checkup
