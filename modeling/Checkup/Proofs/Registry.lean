import Checkup.Context.Registry
import Mathlib.Data.List.Nodup

/-!
# What identifiers lead to

The index of a registry is kept up in two ways: a new context is added to it, and
after a replacement it is built anew. Both give the same index, a function of the
contexts alone:

* `Registry.slotOf` — where an identifier should lead in a list of contexts: to
  the context of that name, else to the first that has it as an alias.
* `Registry.Indexed` — names are distinct and the index is that function; every
  registration keeps it (`Indexed.register`, `indexed_ofContexts`).
* `Indexed.get?_eq`, `Indexed.resolve_eq` — looking up, without the index.
-/

namespace Checkup.Registry

/-- Where an identifier should lead: to the context of that name, else to the first
that has it as an alias. -/
def slotOf (contexts : List Context) (identifier : String) : Option Nat :=
  (contexts.findIdx? fun c => c.name = identifier).or
    (contexts.findIdx? fun c => c.aliases.contains identifier)

/-- The context that an identifier should mean. -/
def meant? (contexts : List Context) (identifier : String) : Option Context :=
  (contexts.find? fun c => c.name = identifier).or
    (contexts.find? fun c => c.aliases.contains identifier)

/-- A registry in order: names are distinct, and identifiers lead where they should. -/
structure Indexed (r : Registry) : Prop where
  /-- no two contexts have one name -/
  nodup : (r.contexts.map (·.name)).Nodup
  /-- the index is a function of the contexts -/
  get?_index : ∀ identifier, r.index.get? identifier = slotOf r.contexts identifier

theorem slotOf_bind_getElem? (contexts : List Context) (identifier : String) :
    (slotOf contexts identifier).bind (contexts[·]?) = meant? contexts identifier := by
  rw [slotOf, meant?, List.find?_eq_bind_findIdx?_getElem?, List.find?_eq_bind_findIdx?_getElem?]
  cases h : contexts.findIdx? fun c => c.name = identifier with
  | none => simp
  | some slot =>
    have hlt := (List.findIdx?_eq_some_iff_getElem.mp h).1
    simp [hlt]

/-! ## Building the index anew -/

theorem get?_claimAliases (index : OrderedMap Nat) (slot : Nat) (aliases : List String)
    (identifier : String) :
    (claimAliases index slot aliases).get? identifier =
      (index.get? identifier).or (if aliases.contains identifier then some slot else none) := by
  unfold claimAliases
  induction aliases generalizing index with
  | nil => simp
  | cons a rest ih =>
    rw [List.foldl_cons, ih, OrderedMap.get?_insertIfNew]
    by_cases ha : a = identifier
    · subst ha
      simp
    · have ha' : identifier ≠ a := Ne.symm ha
      simp [ha, ha']

/-- Of distinct names every one leads to its own position. -/
theorem get?_names (contexts : List Context) (identifier : String) :
    ∀ (index : OrderedMap Nat) (first : Nat), (contexts.map (·.name)).Nodup →
      ((contexts.zipIdx first).foldl (fun index (c, slot) => index.insert c.name slot)
          index).get? identifier =
        ((contexts.findIdx? fun c => c.name = identifier).map (· + first)).or
          (index.get? identifier) := by
  induction contexts with
  | nil => intro index first _; rfl
  | cons c rest ih =>
    intro index first hn
    obtain ⟨hc, hrest⟩ := List.nodup_cons.mp hn
    rw [List.zipIdx_cons, List.foldl_cons, ih _ _ hrest, OrderedMap.get?_insert,
      List.findIdx?_cons]
    by_cases hk : c.name = identifier
    -- no later context takes the name over
    · have hnone : (rest.findIdx? fun d => d.name = identifier) = none := by
        rw [List.findIdx?_eq_none_iff]
        intro d hd
        have hd' : d.name ≠ identifier := by
          rw [← hk]
          exact fun e => hc (List.mem_map.mpr ⟨d, hd, e⟩)
        simpa using hd'
      simp [hk, hnone]
    · simp [hk, Option.map_map, Function.comp_def, Nat.add_comm, Nat.add_left_comm]

/-- An alias that leads nowhere yet leads to the first context that has it. -/
theorem get?_aliases (contexts : List Context) (identifier : String) :
    ∀ (index : OrderedMap Nat) (first : Nat),
      ((contexts.zipIdx first).foldl (fun index (c, slot) => claimAliases index slot c.aliases)
          index).get? identifier =
        (index.get? identifier).or
          ((contexts.findIdx? fun c => c.aliases.contains identifier).map (· + first)) := by
  induction contexts with
  | nil => intro index first; simp
  | cons c rest ih =>
    intro index first
    rw [List.zipIdx_cons, List.foldl_cons, ih, get?_claimAliases, List.findIdx?_cons]
    by_cases hk : identifier ∈ c.aliases
    · simp [hk]
    · simp [hk, Option.map_map, Function.comp_def, Nat.add_comm, Nat.add_left_comm]

/-- An index built anew leads every identifier where it should. -/
theorem get?_indexOf {contexts : List Context} (h : (contexts.map (·.name)).Nodup)
    (identifier : String) : (indexOf contexts).get? identifier = slotOf contexts identifier := by
  rw [indexOf, get?_aliases, get?_names contexts identifier ∅ 0 h]
  simp [slotOf]

/-! ## Registering keeps the order -/

namespace Indexed

variable {r : Registry}

theorem find?_eq (h : r.Indexed) (identifier : String) :
    (r.find? identifier).map Prod.snd = meant? r.contexts identifier := by
  rw [← slotOf_bind_getElem?, find?, h.get?_index]
  cases slotOf r.contexts identifier with
  | none => rfl
  | some slot => cases hs : r.contexts[slot]? <;> simp [hs]

/-- By name alone exactly the context of that name is found. -/
theorem get?_eq (h : r.Indexed) (name : String) :
    r.get? name = r.contexts.find? fun c => c.name = name := by
  rw [get?, h.find?_eq, meant?]
  cases hn : r.contexts.find? fun c => c.name = name with
  | none =>
    cases ha : r.contexts.find? fun c => c.aliases.contains name with
    | none => rfl
    | some d =>
      -- what is found by an alias has another name
      have hd := List.find?_eq_none.mp hn d (List.mem_of_find?_eq_some ha)
      exact Option.filter_eq_none_iff.mpr fun e he => by cases he; exact hd
  | some c =>
    have hc := List.find?_some hn
    exact Option.filter_some_pos hc

/-- An identifier is resolved to the context it should mean, if there is one. -/
theorem resolve_eq (h : r.Indexed) (identifier : String) :
    r.resolve identifier =
      match meant? r.contexts identifier with
      | some c => .ok c
      | none => .error (.unknownContext identifier) := by
  rw [← h.find?_eq, resolve]
  rcases r.find? identifier with - | ⟨slot, c⟩ <;> rfl

/-- A registered context is found by its name. -/
theorem get?_of_mem (h : r.Indexed) {c : Context} (hc : c ∈ r.contexts) :
    r.get? c.name = some c := by
  rw [h.get?_eq]
  cases hf : r.contexts.find? fun d => d.name = c.name with
  | none =>
    have := List.find?_eq_none.mp hf c hc
    simp at this
  | some d =>
    have hname : d.name = c.name := by simpa using List.find?_some hf
    have hd := List.mem_of_find?_eq_some hf
    rw [List.inj_on_of_nodup_map h.nodup hd hc hname]

/-- A registered context is what its name is resolved to: a name wins over an alias. -/
theorem resolve_name (h : r.Indexed) {c : Context} (hc : c ∈ r.contexts) :
    r.resolve c.name = .ok c := by
  have hfind : (r.contexts.find? fun d => d.name = c.name) = some c := by
    rw [← h.get?_eq, h.get?_of_mem hc]
  rw [h.resolve_eq, meant?, hfind]
  rfl

theorem get?_eq_none_iff (h : r.Indexed) {name : String} :
    r.get? name = none ↔ name ∉ r.contexts.map (·.name) := by
  rw [h.get?_eq, List.find?_eq_none]
  simp

/-- Replacing the context of a name builds the index anew; names stay distinct. -/
theorem replace (h : r.Indexed) {slot : Nat} {old c : Context}
    (hold : r.contexts[slot]? = some old) (hname : old.name = c.name) :
    Indexed ⟨r.contexts.set slot c, indexOf (r.contexts.set slot c)⟩ := by
  have hnames : (r.contexts.set slot c).map (·.name) = r.contexts.map (·.name) := by
    obtain ⟨hlt, rfl⟩ := List.getElem?_eq_some_iff.mp hold
    have hlt' : slot < (r.contexts.map (·.name)).length := by simpa
    have hself := List.set_getElem_self hlt'
    rw [List.map_set, ← hname, ← hself]
    simp
  have hn : ((r.contexts.set slot c).map (·.name)).Nodup := hnames ▸ h.nodup
  exact ⟨hn, get?_indexOf hn⟩

/-- Adding a context of a new name. Its name takes over an identifier that was only
an alias so far. -/
theorem add (h : r.Indexed) {c : Context} (hnew : c.name ∉ r.contexts.map (·.name)) :
    Indexed ⟨r.contexts ++ [c],
      claimAliases (r.index.insert c.name r.contexts.length) r.contexts.length c.aliases⟩ := by
  refine ⟨?_, fun identifier => ?_⟩
  · simpa [List.nodup_append, h.nodup] using hnew
  · have hnone : (r.contexts.findIdx? fun d => d.name = c.name) = none := by
      simpa [List.findIdx?_eq_none_iff] using hnew
    rw [get?_claimAliases, OrderedMap.get?_insert, h.get?_index]
    simp only [slotOf, List.findIdx?_append, List.findIdx?_singleton]
    -- the new name leads to the new context; its aliases do only if they led nowhere
    by_cases hid : c.name = identifier
    · subst hid
      simp [hnone]
    · by_cases ha : identifier ∈ c.aliases
      · simp [hid, ha]
      · simp [hid, ha]

/-- **What a registration does**: it replaces the context of its name where that stands, or
adds one of a new name. -/
theorem register_cases (h : r.Indexed) (c : Context) :
    (∃ slot old, r.contexts[slot]? = some old ∧ old.name = c.name ∧
        r.register c = ⟨r.contexts.set slot c, indexOf (r.contexts.set slot c)⟩) ∨
      (c.name ∉ r.contexts.map (·.name) ∧
        r.register c = ⟨r.contexts ++ [c], claimAliases (r.index.insert c.name r.contexts.length)
          r.contexts.length c.aliases⟩) := by
  unfold Registry.register
  split
  · rename_i slot old hf
    obtain ⟨hf, hname⟩ := Option.filter_eq_some_iff.mp hf
    obtain ⟨s, -, hs⟩ := Option.bind_eq_some_iff.mp hf
    obtain ⟨d, hd, hsd⟩ := Option.bind_eq_some_iff.mp hs
    cases hsd
    exact .inl ⟨slot, old, hd, by simpa using hname, rfl⟩
  · rename_i hf
    refine .inr ⟨?_, rfl⟩
    rw [← h.get?_eq_none_iff, get?]
    cases hfind : r.find? c.name with
    | none => rfl
    | some found =>
      rw [hfind] at hf
      simpa [Option.filter_eq_none_iff] using hf

/-- Every registration keeps a registry in order. -/
theorem register (h : r.Indexed) (c : Context) : (r.register c).Indexed := by
  obtain ⟨slot, old, hold, hname, heq⟩ | ⟨hnew, heq⟩ := h.register_cases c
  · rw [heq]
    exact h.replace hold hname
  · rw [heq]
    exact h.add hnew

/-- A context of a new name goes last. -/
theorem contexts_register (h : r.Indexed) {c : Context}
    (hnew : c.name ∉ r.contexts.map (·.name)) : (r.register c).contexts = r.contexts ++ [c] := by
  obtain ⟨slot, old, hold, hname, -⟩ | ⟨-, heq⟩ := h.register_cases c
  · exact absurd (List.mem_map.mpr ⟨old, List.mem_of_getElem? hold, hname⟩) hnew
  · rw [heq]

end Indexed

theorem indexed_empty : empty.Indexed := ⟨List.nodup_nil, fun _ => rfl⟩

/-- **Every run of registrations leaves a registry in order.** -/
theorem indexed_ofContexts (contexts : List Context) : (ofContexts contexts).Indexed := by
  have hrun : ∀ (contexts : List Context) (r : Registry), r.Indexed →
      (contexts.foldl Registry.register r).Indexed := by
    intro contexts
    induction contexts with
    | nil => exact fun r h => h
    | cons c rest ih => exact fun r h => ih _ (h.register c)
  exact hrun contexts empty indexed_empty

/-! ## Contexts with distinct names -/

/-- Contexts with distinct names are registered as they are. -/
theorem contexts_ofContexts {contexts : List Context} (hn : (contexts.map (·.name)).Nodup) :
    (ofContexts contexts).contexts = contexts := by
  have hrun : ∀ (contexts : List Context) (r : Registry), r.Indexed →
      ((r.contexts ++ contexts).map (·.name)).Nodup →
      (contexts.foldl Registry.register r).contexts = r.contexts ++ contexts := by
    intro contexts
    induction contexts with
    | nil => exact fun r _ _ => (List.append_nil _).symm
    | cons c rest ih =>
      intro r h hn
      have hnew : c.name ∉ r.contexts.map (·.name) := by
        rw [List.map_append, List.map_cons, List.nodup_append] at hn
        exact fun hc => hn.2.2 _ hc _ List.mem_cons_self rfl
      have hcontexts := h.contexts_register hnew
      rw [List.foldl_cons, ih _ (h.register c)]
      · rw [hcontexts, List.append_assoc, List.singleton_append]
      · rwa [hcontexts, List.append_assoc, List.singleton_append]
  exact hrun contexts empty indexed_empty hn

/-! ## Meanings and answers -/

/-- Whatever an identifier means answers to it. -/
theorem of_meant?_eq_some {contexts : List Context} {identifier : String} {c : Context}
    (h : meant? contexts identifier = some c) : c ∈ contexts ∧ c.answersTo identifier = true := by
  rcases Option.or_eq_some_iff.mp h with h | ⟨-, h⟩
  · refine ⟨List.mem_of_find?_eq_some h, ?_⟩
    have hname := List.find?_some h
    simp only [Context.answersTo, hname, Bool.true_or]
  · refine ⟨List.mem_of_find?_eq_some h, ?_⟩
    have halias := List.find?_some h
    simp only [Context.answersTo, halias, Bool.or_true]

/-- An identifier means nothing exactly when no context answers to it. -/
theorem meant?_eq_none_iff {contexts : List Context} {identifier : String} :
    meant? contexts identifier = none ↔ ∀ c ∈ contexts, ¬ c.answersTo identifier = true := by
  constructor
  · intro h c hc hid
    obtain ⟨hname, halias⟩ := Option.or_eq_none_iff.mp h
    rw [Context.answersTo, Bool.or_eq_true] at hid
    rcases hid with hid | hid
    · exact List.find?_eq_none.mp hname c hc hid
    · exact List.find?_eq_none.mp halias c hc hid
  · intro h
    cases hm : meant? contexts identifier with
    | none => rfl
    | some c =>
      obtain ⟨hc, hid⟩ := of_meant?_eq_some hm
      exact absurd hid (h c hc)

/-- If no two contexts answer to an identifier, it means the one that does. -/
theorem meant?_eq_some_iff {contexts : List Context} {identifier : String} {c : Context}
    (honly : ∀ c ∈ contexts, ∀ d ∈ contexts, c.answersTo identifier = true →
      d.answersTo identifier = true → c = d) :
    meant? contexts identifier = some c ↔ c ∈ contexts ∧ c.answersTo identifier = true := by
  refine ⟨of_meant?_eq_some, fun ⟨hc, hid⟩ => ?_⟩
  cases hm : meant? contexts identifier with
  | none => exact absurd hid (meant?_eq_none_iff.mp hm c hc)
  | some d =>
    obtain ⟨hd, hdid⟩ := of_meant?_eq_some hm
    rw [honly d hd c hc hdid hid]

end Checkup.Registry
