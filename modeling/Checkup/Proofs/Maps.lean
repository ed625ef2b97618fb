import Checkup.Distinct
import Checkup.OrderedMap
import Mathlib.Data.List.Induction
import Mathlib.Data.List.Nodup

/-!
# Maps built from entries

* `find?_key_eq_some_iff` — what is found by a key that no two elements share.
* `OrderedMap.keys_ofList` — the keys are in the order of their first occurrences.
* `OrderedMap.get?_ofList_eq_some_iff` — of the values of a key the last counts.
* `OrderedMap.entries_ofList` — distinct keys leave the entries as they are.
* `OrderedMap.overlay` — entries laid over a map one after the other: new keys follow the old ones
  (`keys_overlay`), and every key has what its own entry makes of its old value (`get?_overlay`).
* `OrderedMap.get?_ofList_filterMap` — what is left of a map when values are mapped or left out.
-/

namespace Checkup

variable {κ : Type*} [DecidableEq κ]

/-- Of elements with distinct keys, the one of a key is found by it. -/
theorem find?_key_eq_some_iff {α : Type*} {key : α → κ} {xs : List α} (hn : (xs.map key).Nodup)
    {k : κ} {x : α} : (xs.find? fun y => key y = k) = some x ↔ x ∈ xs ∧ key x = k := by
  constructor
  · intro h
    exact ⟨List.mem_of_find?_eq_some h, by simpa using List.find?_some h⟩
  · rintro ⟨hx, rfl⟩
    obtain ⟨y, hy⟩ : ∃ y, (xs.find? fun y => key y = key x) = some y := by
      rw [← Option.isSome_iff_exists, List.find?_isSome]
      exact ⟨x, hx, by simp⟩
    have hkey : key y = key x := by simpa using List.find?_some hy
    rw [hy, List.inj_on_of_nodup_map hn (List.mem_of_find?_eq_some hy) hx hkey]

theorem distinct_cons (x : κ) (xs : List κ) :
    distinct (x :: xs) = x :: (distinct xs).filter fun y => y ≠ x := rfl

theorem mem_distinct {x : κ} {xs : List κ} : x ∈ distinct xs ↔ x ∈ xs := by
  constructor
  · exact mem_of_mem_distinctBy
  · intro h
    obtain ⟨y, hy, rfl⟩ : ∃ y ∈ distinct xs, y = x := exists_mem_distinctBy h
    exact hy

theorem nodup_distinct (xs : List κ) : (distinct xs).Nodup := pairwise_distinctBy id xs

/-- A last element is kept if it has not occurred before. -/
theorem distinct_concat (xs : List κ) (x : κ) :
    distinct (xs ++ [x]) = if x ∈ xs then distinct xs else distinct xs ++ [x] := by
  induction xs with
  | nil => rfl
  | cons y ys ih =>
    rw [List.cons_append, distinct_cons, distinct_cons, ih]
    by_cases hyx : x = y
    · subst hyx
      rw [if_pos List.mem_cons_self]
      split <;> simp
    · by_cases hmem : x ∈ ys
      · rw [if_pos hmem, if_pos (List.mem_cons_of_mem _ hmem)]
      · rw [if_neg hmem, if_neg (by simp [hyx, hmem])]
        simp [hyx]

namespace OrderedMap

variable {α : Type*}

/-- In a list that is read off a map, with its keys, looking for a key finds what is read off its
entry. -/
theorem find?_map_entries {β : Type*} (read : String → α → β) (key : β → String)
    (hkey : ∀ k value, key (read k value) = k) (m : OrderedMap α) (name : String) :
    ((m.entries.map fun e => read e.1 e.2).find? fun y => key y = name) =
      (m.get? name).map (read name) := by
  rw [get?]
  induction m.entries with
  | nil => rfl
  | cons e rest ih =>
    obtain ⟨k, value⟩ := e
    by_cases hk : k = name
    · subst hk
      simp [lookup?, hkey]
    · simpa [lookup?, hk, hkey] using ih

/-- A key has a value. -/
theorem exists_get?_of_mem {m : OrderedMap α} {key : String} (h : key ∈ m.keys) :
    ∃ value, m.get? key = some value := by
  rwa [← Option.isSome_iff_exists, ← contains, contains_iff]

theorem ofList_concat (l : List (String × α)) (e : String × α) :
    ofList (l ++ [e]) = (ofList l).insert e.1 e.2 := by
  rw [ofList, List.foldl_append]
  rfl

/-- Keys come in the order of their first occurrences. -/
theorem keys_ofList (l : List (String × α)) : (ofList l).keys = distinct (l.map Prod.fst) := by
  induction l using List.reverseRecOn with
  | nil => rfl
  | append_singleton l e ih =>
    rw [ofList_concat, keys_insert, List.map_append, List.map_singleton, distinct_concat, ih]
    exact if_congr mem_distinct rfl rfl

/-- Of the values of one key the last is kept. -/
theorem get?_ofList_of_last {before after : List (String × α)} {key : String} {value : α}
    (h : key ∉ after.map Prod.fst) :
    (ofList (before ++ (key, value) :: after)).get? key = some value := by
  induction after using List.reverseRecOn with
  | nil => rw [ofList_concat, get?_insert, if_pos rfl]
  | append_singleton after e ih =>
    rw [List.map_append, List.mem_append, not_or] at h
    rw [← List.cons_append, ← List.append_assoc, ofList_concat, get?_insert, if_neg, ih h.1]
    exact fun he => h.2 (by simp [he])

/-- A key that occurs has a last occurrence. -/
theorem exists_last_of_mem {l : List (String × α)} {key : String} (h : key ∈ l.map Prod.fst) :
    ∃ before value after, l = before ++ (key, value) :: after ∧ key ∉ after.map Prod.fst := by
  induction l with
  | nil => cases h
  | cons e rest ih =>
    by_cases hrest : key ∈ rest.map Prod.fst
    · obtain ⟨before, value, after, rfl, hafter⟩ := ih hrest
      exact ⟨e :: before, value, after, rfl, hafter⟩
    · obtain rfl : key = e.1 := (List.mem_cons.mp h).resolve_right hrest
      exact ⟨[], e.2, rest, rfl, hrest⟩

/-- The value of a key is the last one that was inserted under it. -/
theorem get?_ofList_eq_some_iff {l : List (String × α)} {key : String} {value : α} :
    (ofList l).get? key = some value ↔
      ∃ before after, l = before ++ (key, value) :: after ∧ key ∉ after.map Prod.fst := by
  constructor
  · intro h
    have hmem : key ∈ l.map Prod.fst := by
      rw [← mem_distinct, ← keys_ofList]
      by_contra hnone
      rw [get?_eq_none_iff.mpr hnone] at h
      cases h
    obtain ⟨before, last, after, rfl, hafter⟩ := exists_last_of_mem hmem
    obtain rfl := Option.some.inj ((get?_ofList_of_last hafter).symm.trans h)
    exact ⟨before, after, rfl, hafter⟩
  · rintro ⟨before, after, rfl, hafter⟩
    exact get?_ofList_of_last hafter

/-- An entry after storing is the one that was stored or one from before. -/
theorem mem_store {key : String} {value : α} {l : List (String × α)} {e : String × α}
    (he : e ∈ store key value l) : e = (key, value) ∨ e ∈ l := by
  induction l with
  | nil => exact .inl (List.mem_singleton.mp he)
  | cons first rest ih =>
    rw [store] at he
    split at he
    · rename_i hkey
      rcases List.mem_cons.mp he with rfl | he
      · exact .inl (congrArg (·, value) hkey)
      · exact .inr (List.mem_cons_of_mem _ he)
    · rcases List.mem_cons.mp he with rfl | he
      · exact .inr List.mem_cons_self
      · exact (ih he).imp_right (List.mem_cons_of_mem _)

/-- Storing what is filtered out, in place of nothing else, leaves what stays. -/
theorem filter_store {keep : String × α → Bool} {key : String} {value : α}
    {l : List (String × α)} (hnew : keep (key, value) = false)
    (hold : ∀ old, lookup? key l = some old → keep (key, old) = false) :
    (store key value l).filter keep = l.filter keep := by
  induction l with
  | nil => simp [store, hnew]
  | cons e rest ih =>
    obtain ⟨k, old⟩ := e
    by_cases hk : k = key
    · subst hk
      have hkeep := hold old (by simp [lookup?])
      simp [store, hnew, hkeep]
    · have ih := ih fun old hlookup => hold old (by simpa [lookup?, hk] using hlookup)
      rw [store, if_neg hk, List.filter_cons, List.filter_cons, ih]

/-- A new key is stored at the end. -/
theorem store_of_new {key : String} {value : α} {l : List (String × α)}
    (h : key ∉ l.map Prod.fst) : store key value l = l ++ [(key, value)] := by
  induction l with
  | nil => rfl
  | cons e rest ih =>
    obtain ⟨k, v⟩ := e
    rw [List.map_cons, List.mem_cons, not_or] at h
    rw [store, if_neg (Ne.symm h.1), ih h.2]
    rfl

/-- Entries with distinct keys are the entries of their map. -/
theorem entries_ofList {l : List (String × α)} (h : (l.map Prod.fst).Nodup) :
    (ofList l).entries = l := by
  induction l using List.reverseRecOn with
  | nil => rfl
  | append_singleton l e ih =>
    rw [List.map_append, List.nodup_append] at h
    have hnew : e.1 ∉ l.map Prod.fst := fun hmem =>
      h.2.2 e.1 hmem e.1 (by simp) rfl
    have hstore : store e.1 e.2 (ofList l).entries = l ++ [e] := by
      rw [ih h.1]
      exact store_of_new hnew
    rw [ofList_concat]
    exact hstore

/-! ## Entries over a map -/

section Overlay

variable {β : Type*} {f : Option α → β → α} {m : OrderedMap α} {l : List (String × β)}

/-- Lays entries over a map: each is combined with the value of its key, if there is one. -/
def overlay (f : Option α → β → α) (m : OrderedMap α) (l : List (String × β)) : OrderedMap α :=
  l.foldl (fun m e => m.insert e.1 (f (m.get? e.1) e.2)) m

theorem overlay_cons (f : Option α → β → α) (m : OrderedMap α) (e : String × β)
    (rest : List (String × β)) :
    overlay f m (e :: rest) = overlay f (m.insert e.1 (f (m.get? e.1) e.2)) rest := rfl

/-- New keys follow those of the map, in their order. -/
theorem keys_overlay (hn : (l.map Prod.fst).Nodup) :
    (overlay f m l).keys = m.keys ++ (l.map Prod.fst).filter fun key => key ∉ m.keys := by
  induction l generalizing m with
  | nil => exact (List.append_nil _).symm
  | cons e rest ih =>
    obtain ⟨hnew, hrest⟩ := List.nodup_cons.mp hn
    rw [overlay_cons, ih hrest, keys_insert, List.map_cons]
    by_cases hmem : e.1 ∈ m.keys
    · rw [if_pos hmem, List.filter_cons_of_neg (by simpa using hmem)]
    · -- the later keys are others, so the new one makes no difference to them
      rw [if_neg hmem, List.filter_cons_of_pos (by simpa using hmem), List.append_assoc,
        List.singleton_append]
      refine congrArg (m.keys ++ e.1 :: ·) (List.filter_congr fun key hkey => ?_)
      have hne : key ≠ e.1 := fun heq => hnew (heq ▸ hkey)
      simp [hne]

/-- A key has what its entry makes of its old value; without an entry it keeps that. -/
theorem get?_overlay (hn : (l.map Prod.fst).Nodup) (key : String) :
    (overlay f m l).get? key = ((lookup? key l).map (f (m.get? key))).or (m.get? key) := by
  induction l generalizing m with
  | nil => rfl
  | cons e rest ih =>
    obtain ⟨hnew, hrest⟩ := List.nodup_cons.mp hn
    rw [overlay_cons, ih hrest, get?_insert, lookup?]
    by_cases hkey : e.1 = key
    · subst hkey
      rw [lookup?_eq_none_iff.mpr hnew]
      simp
    · simp [hkey]

/-- The keys of a second map follow those of the first, as far as they are new. -/
theorem keys_union (m n : OrderedMap α) :
    (m.union n).keys = m.keys ++ n.keys.filter fun key => key ∉ m.keys :=
  keys_overlay (f := fun _ value => value) n.nodup

/-- The values of the second map come first. -/
theorem get?_union (m n : OrderedMap α) (key : String) :
    (m.union n).get? key = (n.get? key).or (m.get? key) := by
  have h : (m.union n).get? key = _ := get?_overlay (f := fun _ value => value) n.nodup key
  rw [h, Option.map_id']
  rfl

end Overlay

/-! ## Values that are left out -/

section FilterMap

variable {β : Type*}

theorem map_fst_filterMap (g : α → Option β) (l : List (String × α)) :
    (l.filterMap fun e => (g e.2).map (e.1, ·)).map Prod.fst =
      (l.filter fun e => (g e.2).isSome).map Prod.fst := by
  induction l with
  | nil => rfl
  | cons e rest ih =>
    cases hg : g e.2 with
    | none => simpa [List.filterMap_cons, List.filter_cons, hg] using ih
    | some value => simpa [List.filterMap_cons, List.filter_cons, hg] using ih

theorem lookup?_filterMap (g : α → Option β) {l : List (String × α)}
    (hn : (l.map Prod.fst).Nodup) (key : String) :
    lookup? key (l.filterMap fun e => (g e.2).map (e.1, ·)) = (lookup? key l).bind g := by
  induction l with
  | nil => rfl
  | cons e rest ih =>
    obtain ⟨hnew, hrest⟩ := List.nodup_cons.mp hn
    rw [List.filterMap_cons, lookup?]
    by_cases hkey : e.1 = key
    · subst hkey
      rw [if_pos rfl]
      cases hg : g e.2 with
      | none => simp [hg, ih hrest, lookup?_eq_none_iff.mpr hnew]
      | some value => simp [hg, lookup?]
    · cases hg : g e.2 with
      | none => simpa [hkey] using ih hrest
      | some value => simpa [lookup?, hkey] using ih hrest

variable (g : α → Option β) (m : OrderedMap α)

theorem entries_ofList_filterMap :
    (ofList (m.entries.filterMap fun e => (g e.2).map (e.1, ·))).entries =
      m.entries.filterMap fun e => (g e.2).map (e.1, ·) := by
  refine entries_ofList ?_
  rw [map_fst_filterMap]
  exact m.nodup.sublist (List.filter_sublist.map _)

/-- A key has what `g` makes of its value, if anything. -/
theorem get?_ofList_filterMap (key : String) :
    (ofList (m.entries.filterMap fun e => (g e.2).map (e.1, ·))).get? key =
      (m.get? key).bind g := by
  rw [get?, entries_ofList_filterMap]
  exact lookup?_filterMap g m.nodup key

/-- The keys that still have a value stay in their order. -/
theorem keys_ofList_filterMap :
    (ofList (m.entries.filterMap fun e => (g e.2).map (e.1, ·))).keys =
      m.keys.filter fun key => ((m.get? key).bind g).isSome := by
  rw [keys, entries_ofList_filterMap, map_fst_filterMap, keys, List.filter_map]
  refine congrArg (List.map Prod.fst) (List.filter_congr fun e he => ?_)
  have hget : m.get? e.1 = some e.2 := get?_eq_some_iff.mpr he
  simp [hget]

end FilterMap

end OrderedMap

end Checkup
