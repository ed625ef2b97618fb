/-!
# Insertion-ordered maps

A map from names to values that remembers the order in which names were first
inserted. Configuration tables, membership flags and evaluations are all of
this shape: their order is what the user wrote and is shown again in every
report.

* `OrderedMap α` — a list of entries with pairwise distinct keys.
* `OrderedMap.insert` — replaces the value of a known key where it stands, and
  puts a new key last (`keys_insert`, `get?_insert`).
-/

namespace Checkup

universe u v

/-- A finite map with string keys, ordered by first insertion. -/
structure OrderedMap (α : Type u) where
  /-- the entries, oldest key first -/
  entries : List (String × α)
  /-- no key occurs twice -/
  nodup : (entries.map Prod.fst).Nodup
  deriving DecidableEq

namespace OrderedMap

variable {α : Type u} {β : Type v}

/-- The map without entries. -/
def empty : OrderedMap α := ⟨[], List.nodup_nil⟩

instance : EmptyCollection (OrderedMap α) := ⟨empty⟩

instance : Inhabited (OrderedMap α) := ⟨empty⟩

instance [Repr α] : Repr (OrderedMap α) := ⟨fun m n => reprPrec m.entries n⟩

/-- Maps are determined by their entries. -/
theorem ext {m n : OrderedMap α} (h : m.entries = n.entries) : m = n := by
  cases m; cases n; cases h; rfl

/-! ## Looking up -/

/-- The value stored at `key` in a list of entries. -/
def lookup? (key : String) : List (String × α) → Option α
  | [] => none
  | (k, v) :: rest => if k = key then some v else lookup? key rest

/-- The value of `key`, if there is one. -/
def get? (m : OrderedMap α) (key : String) : Option α := lookup? key m.entries

/-- The keys, oldest first. -/
def keys (m : OrderedMap α) : List String := m.entries.map Prod.fst

/-- The values, in the order of their keys. -/
def values (m : OrderedMap α) : List α := m.entries.map Prod.snd

/-- Whether `key` has a value. -/
def contains (m : OrderedMap α) (key : String) : Bool := (m.get? key).isSome

/-- The number of entries. -/
def size (m : OrderedMap α) : Nat := m.entries.length

/-- Whether there is no entry. -/
def isEmpty (m : OrderedMap α) : Bool := m.entries.isEmpty

/-! ## Inserting -/

/-- Stores `value` at `key` in a list of entries, where the key stands or at the end. -/
def store (key : String) (value : α) : List (String × α) → List (String × α)
  | [] => [(key, value)]
  | (k, v) :: rest => if k = key then (k, value) :: rest else (k, v) :: store key value rest

theorem map_fst_store (key : String) (value : α) (l : List (String × α)) :
    (store key value l).map Prod.fst =
      if key ∈ l.map Prod.fst then l.map Prod.fst else l.map Prod.fst ++ [key] := by
  induction l with
  | nil => simp [store]
  | cons e rest ih =>
    obtain ⟨k, v⟩ := e
    by_cases h : k = key
    · simp [store, h]
    · have h' : key ≠ k := fun e => h e.symm
      by_cases hm : key ∈ rest.map Prod.fst
      · simp only [store, h, if_false, List.map_cons, ih, hm, if_true, List.mem_cons, or_true]
      · simp only [store, h, if_false, List.map_cons, ih, hm, List.mem_cons, h', or_self,
          List.cons_append]

theorem lookup?_store (key k : String) (value : α) (l : List (String × α)) :
    lookup? k (store key value l) = if key = k then some value else lookup? k l := by
  induction l with
  | nil => simp [store, lookup?]
  | cons e rest ih =>
    obtain ⟨k', v⟩ := e
    by_cases h : k' = key
    · subst h
      by_cases hk : k' = k <;> simp [store, lookup?, hk]
    · by_cases hk : k' = k
      · subst hk
        simp [store, lookup?, h, Ne.symm h]
      · simp [store, lookup?, h, hk, ih]

/-- Stores `value` at `key`. A known key keeps its position, a new one goes last. -/
def insert (m : OrderedMap α) (key : String) (value : α) : OrderedMap α where
  entries := store key value m.entries
  nodup := by
    rw [map_fst_store]
    split
    · exact m.nodup
    · rename_i h
      refine List.nodup_append.mpr ⟨m.nodup, by simp, ?_⟩
      intro a ha b hb
      simp only [List.mem_singleton] at hb
      subst hb
      exact fun e => h (e ▸ ha)

/-- Stores `value` at `key` unless the key already has a value. -/
def insertIfNew (m : OrderedMap α) (key : String) (value : α) : OrderedMap α :=
  if m.contains key then m else m.insert key value

/-- Inserts the entries from left to right: of a repeated key the last value is
kept, at the key's first position. -/
def ofList (entries : List (String × α)) : OrderedMap α :=
  entries.foldl (fun m e => m.insert e.1 e.2) ∅

/-- Inserts all entries of `n`, in their order, over those of `m`. -/
def union (m n : OrderedMap α) : OrderedMap α :=
  n.entries.foldl (fun m e => m.insert e.1 e.2) m

/-- Changes every value, knowing its key. -/
def mapValues (f : String → α → β) (m : OrderedMap α) : OrderedMap β where
  entries := m.entries.map fun e => (e.1, f e.1 e.2)
  nodup := by
    have h : (m.entries.map fun e => (e.1, f e.1 e.2)).map Prod.fst = m.entries.map Prod.fst := by
      simp
    rw [h]
    exact m.nodup

/-! ## What the operations do to the keys and to look-up -/

@[simp] theorem get?_empty (key : String) : (∅ : OrderedMap α).get? key = none := rfl

theorem keys_nodup (m : OrderedMap α) : m.keys.Nodup := m.nodup

/-- Inserting adds the key at the end, if it is new, and moves nothing. -/
theorem keys_insert (m : OrderedMap α) (key : String) (value : α) :
    (m.insert key value).keys = if key ∈ m.keys then m.keys else m.keys ++ [key] :=
  map_fst_store key value m.entries

/-- After inserting at `key`, that key has the new value and every other its old one. -/
theorem get?_insert (m : OrderedMap α) (key k : String) (value : α) :
    (m.insert key value).get? k = if key = k then some value else m.get? k :=
  lookup?_store key k value m.entries

theorem lookup?_eq_none_iff {key : String} {l : List (String × α)} :
    lookup? key l = none ↔ key ∉ l.map Prod.fst := by
  induction l with
  | nil => simp [lookup?]
  | cons e rest ih =>
    obtain ⟨k, v⟩ := e
    by_cases h : k = key
    · simp [lookup?, h]
    · simp [lookup?, h, ih, Ne.symm h]

/-- A key has no value exactly when it is not among the keys. -/
theorem get?_eq_none_iff {m : OrderedMap α} {key : String} :
    m.get? key = none ↔ key ∉ m.keys :=
  lookup?_eq_none_iff

theorem contains_iff {m : OrderedMap α} {key : String} :
    m.contains key = true ↔ key ∈ m.keys := by
  rw [contains, Option.isSome_iff_ne_none, ne_eq, get?_eq_none_iff, Classical.not_not]

theorem lookup?_eq_some_of_mem {key : String} {value : α} :
    ∀ {l : List (String × α)}, (l.map Prod.fst).Nodup → (key, value) ∈ l →
      lookup? key l = some value
  | (k, v) :: rest, hn, hm => by
    rw [List.map_cons, List.nodup_cons] at hn
    rcases List.mem_cons.mp hm with h | h
    · obtain ⟨rfl, rfl⟩ := Prod.mk.injEq .. ▸ h
      simp [lookup?]
    · have hk : k ≠ key := fun e =>
        hn.1 (e ▸ List.mem_map.mpr ⟨(key, value), h, rfl⟩)
      rw [lookup?, if_neg hk]
      exact lookup?_eq_some_of_mem hn.2 h

theorem mem_of_lookup?_eq_some {key : String} {value : α} :
    ∀ {l : List (String × α)}, lookup? key l = some value → (key, value) ∈ l
  | (k, v) :: rest, h => by
    rw [lookup?] at h
    split at h
    · rename_i hk
      cases h; cases hk
      exact List.mem_cons_self
    · exact List.mem_cons_of_mem _ (mem_of_lookup?_eq_some h)

/-- Looking up finds exactly the entries. -/
theorem get?_eq_some_iff {m : OrderedMap α} {key : String} {value : α} :
    m.get? key = some value ↔ (key, value) ∈ m.entries :=
  ⟨mem_of_lookup?_eq_some, lookup?_eq_some_of_mem m.nodup⟩

@[simp] theorem keys_mapValues (f : String → α → β) (m : OrderedMap α) :
    (m.mapValues f).keys = m.keys := by
  simp [keys, mapValues]

theorem lookup?_map (f : String → α → β) (key : String) (l : List (String × α)) :
    lookup? key (l.map fun e => (e.1, f e.1 e.2)) = (lookup? key l).map (f key) := by
  induction l with
  | nil => rfl
  | cons e rest ih =>
    obtain ⟨k, v⟩ := e
    by_cases h : k = key
    · subst h
      simp [lookup?]
    · simp [lookup?, h, ih]

theorem lookup?_filter (keep : String → Bool) (key : String) (l : List (String × α)) :
    lookup? key (l.filter fun e => keep e.1) = if keep key then lookup? key l else none := by
  induction l with
  | nil => simp [lookup?]
  | cons e rest ih =>
    obtain ⟨k, v⟩ := e
    by_cases hk : k = key
    · subst hk
      by_cases hkeep : keep k
      · simp [lookup?, hkeep]
      · simpa [lookup?, hkeep] using ih
    · by_cases hkeep : keep k
      · simpa [lookup?, hkeep, hk] using ih
      · simpa [lookup?, hkeep, hk] using ih

/-- Mapping the values leaves every key where it leads, to the mapped value. -/
theorem get?_mapValues (f : String → α → β) (m : OrderedMap α) (key : String) :
    (m.mapValues f).get? key = (m.get? key).map (f key) :=
  lookup?_map f key m.entries

/-- Inserting a new key gives way to the value that the key already has. -/
theorem get?_insertIfNew (m : OrderedMap α) (key k : String) (value : α) :
    (m.insertIfNew key value).get? k = (m.get? k).or (if key = k then some value else none) := by
  by_cases hc : m.contains key
  · rw [insertIfNew, if_pos hc]
    by_cases hk : key = k
    · subst hk
      obtain ⟨v, hv⟩ := Option.isSome_iff_exists.mp hc
      simp [hv]
    · simp [hk]
  · rw [insertIfNew, if_neg hc, get?_insert]
    by_cases hk : key = k
    · subst hk
      have hnone : m.get? key = none := by simpa [contains] using hc
      simp [hnone]
    · simp [hk]

end OrderedMap

end Checkup
