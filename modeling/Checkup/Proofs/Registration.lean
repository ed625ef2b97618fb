import Checkup.Proofs.Ancestry
import Checkup.Proofs.Maps

/-!
# Runs of registrations

What a registry holds after any run of registrations, and what its identifiers mean then:

* `Registry.Means` — the meaning of an identifier, read off a list of contexts.
* `Registry.entries_ofContexts` — the contexts are the entries of an ordered map: each name
  where it was registered first, with the context that was registered last.
* `Registry.Alike` — registries with equal contexts whose identifiers lead to the same places;
  they cannot be told apart.
* `registrations_decide` — all of it together, for every run.
-/

namespace Checkup.Registry

/-- What an identifier means among contexts in their order. -/
inductive Means (contexts : List Context) (identifier : String) :
    Except ResolveError Context → Prop
  /-- the context of that name -/
  | name {c : Context} : c ∈ contexts → c.name = identifier → Means contexts identifier (.ok c)
  /-- if there is none, the first context that has it as an alias -/
  | alias {before after : List Context} {c : Context} :
      identifier ∉ contexts.map (·.name) → contexts = before ++ c :: after →
      identifier ∈ c.aliases → (∀ d ∈ before, identifier ∉ d.aliases) →
      Means contexts identifier (.ok c)
  /-- if there is none either, nothing -/
  | unknown : (∀ c ∈ contexts, ¬ c.answersTo identifier = true) →
      Means contexts identifier (.error (.unknownContext identifier))

variable {r s : Registry} {c : Context}

/-! ## Meanings -/

/-- Where a look-up finds something, that is the meaning; otherwise there is none. -/
theorem means_meant? (contexts : List Context) (identifier : String) :
    Means contexts identifier
      (match meant? contexts identifier with
        | some c => .ok c
        | none => .error (.unknownContext identifier)) := by
  cases hm : meant? contexts identifier with
  | none => exact .unknown (meant?_eq_none_iff.mp hm)
  | some c =>
    rcases Option.or_eq_some_iff.mp hm with hname | ⟨hname, halias⟩
    · exact .name (List.mem_of_find?_eq_some hname) (by simpa using List.find?_some hname)
    · obtain ⟨hc, before, after, hsplit, hbefore⟩ := List.find?_eq_some_iff_append.mp halias
      refine .alias ?_ hsplit (by simpa using hc) fun d hd => by simpa using hbefore d hd
      rw [List.find?_eq_none] at hname
      simpa using hname

theorem Indexed.means_resolve (h : r.Indexed) (identifier : String) :
    Means r.contexts identifier (r.resolve identifier) := by
  rw [h.resolve_eq]
  exact means_meant? r.contexts identifier

/-- By name alone the contexts of the registry are found, and nothing else. -/
theorem Indexed.get?_eq_some_iff (h : r.Indexed) {name : String} :
    r.get? name = some c ↔ c ∈ r.contexts ∧ c.name = name := by
  constructor
  · intro hget
    exact ⟨mem_of_get? hget, name_of_get? hget⟩
  · rintro ⟨hc, rfl⟩
    exact h.get?_of_mem hc

/-! ## What a registration does to the contexts -/

/-- A context of a known name takes the place of the one that has it. -/
theorem Indexed.contexts_register_of_mem (h : r.Indexed)
    (hold : c.name ∈ r.contexts.map (·.name)) :
    (r.register c).contexts = r.contexts.map fun d => if d.name = c.name then c else d := by
  obtain ⟨slot, old, hslot, hname, heq⟩ | ⟨hnew, -⟩ := h.register_cases c
  · rw [heq]
    -- no other place has a context of this name
    refine List.ext_getElem? fun i => ?_
    rw [List.getElem?_set, List.getElem?_map]
    obtain ⟨hlt, hold⟩ := List.getElem?_eq_some_iff.mp hslot
    by_cases hi : slot = i
    · subst hi
      simp [hlt, hold, hname]
    · rw [if_neg hi]
      cases hget : r.contexts[i]? with
      | none => rfl
      | some d =>
        have hne : d.name ≠ c.name := by
          intro heq
          have hnames : (r.contexts.map (·.name))[slot]? = (r.contexts.map (·.name))[i]? := by
            simp [hslot, hget, hname, heq]
          exact hi ((List.getElem?_inj (by simpa using hlt) h.nodup).mp hnames)
        simp [hne]
  · exact absurd hold hnew

/-- Storing a context by its name is registering it. -/
theorem Indexed.entries_register (h : r.Indexed) (c : Context) :
    (r.register c).contexts.map (fun d => (d.name, d)) =
      OrderedMap.store c.name c (r.contexts.map fun d => (d.name, d)) := by
  by_cases hmem : c.name ∈ r.contexts.map (·.name)
  · rw [h.contexts_register_of_mem hmem]
    have hn := h.nodup
    generalize r.contexts = contexts at hmem hn ⊢
    induction contexts with
    | nil => cases hmem
    | cons d rest ih =>
      obtain ⟨hd, hrest⟩ := List.nodup_cons.mp hn
      rw [List.map_cons, List.map_cons, List.map_cons, OrderedMap.store]
      by_cases hname : d.name = c.name
      · -- the names after it are others, so nothing more changes
        have hkeep : ∀ e ∈ rest, (if e.name = c.name then c else e) = e := fun e he =>
          if_neg fun heq => hd (List.mem_map.mpr ⟨e, he, heq.trans hname.symm⟩)
        rw [if_pos hname, if_pos hname, List.map_congr_left hkeep, List.map_id', hname]
      · have hmem : c.name ∈ rest.map (·.name) := by
          rcases List.mem_cons.mp hmem with heq | hmem
          · exact absurd heq.symm hname
          · exact hmem
        rw [if_neg hname, if_neg hname, ih hmem hrest]
  · rw [h.contexts_register hmem, List.map_append, OrderedMap.store_of_new]
    · rfl
    · simpa [Function.comp_def] using hmem

/-- What a registration makes of the contexts does not hang on the index. -/
theorem Indexed.contexts_register_congr (hr : r.Indexed) (hs : s.Indexed)
    (h : r.contexts = s.contexts) (c : Context) :
    (r.register c).contexts = (s.register c).contexts := by
  have hentries := congrArg (List.map Prod.snd) (hr.entries_register c)
  rw [h, ← hs.entries_register c] at hentries
  simpa [Function.comp_def] using hentries

theorem ofContexts_concat (contexts : List Context) (c : Context) :
    ofContexts (contexts ++ [c]) = (ofContexts contexts).register c := by
  rw [ofContexts, List.foldl_append]
  rfl

/-- **The contexts after a run** are those of the ordered map from names to contexts. -/
theorem entries_ofContexts (contexts : List Context) :
    (ofContexts contexts).contexts.map (fun c => (c.name, c)) =
      (OrderedMap.ofList (contexts.map fun c => (c.name, c))).entries := by
  induction contexts using List.reverseRecOn with
  | nil => rfl
  | append_singleton contexts c ih =>
    rw [ofContexts_concat, (indexed_ofContexts contexts).entries_register, ih, List.map_append,
      List.map_singleton, OrderedMap.ofList_concat]
    rfl

/-- Names stand in the order of their first registrations. -/
theorem map_name_ofContexts (contexts : List Context) :
    (ofContexts contexts).contexts.map (·.name) = distinct (contexts.map (·.name)) := by
  have hkeys := congrArg (List.map Prod.fst) (entries_ofContexts contexts)
  rw [List.map_map, ← OrderedMap.keys, OrderedMap.keys_ofList, List.map_map] at hkeys
  exact hkeys

/-- Of the contexts registered under one name the last stays. -/
theorem mem_ofContexts_of_last {before after : List Context} (c : Context)
    (h : c.name ∉ after.map (·.name)) : c ∈ (ofContexts (before ++ c :: after)).contexts := by
  have hlast : (OrderedMap.ofList
      ((before ++ c :: after).map fun c => (c.name, c))).get? c.name = some c := by
    rw [List.map_append, List.map_cons]
    exact OrderedMap.get?_ofList_of_last (by simpa [Function.comp_def] using h)
  rw [OrderedMap.get?_eq_some_iff, ← entries_ofContexts] at hlast
  obtain ⟨d, hd, heq⟩ := List.mem_map.mp hlast
  exact (Prod.mk.inj heq).2 ▸ hd

/-! ## Dropped aliases -/

/-- Once a context of a known name is registered that does not answer to an identifier, the
identifier means what it means among the other contexts. -/
theorem meant?_replace {contexts : List Context} {identifier : String}
    (hc : ¬ c.answersTo identifier = true) :
    meant? (contexts.map fun d => if d.name = c.name then c else d) identifier =
      meant? (contexts.filter fun d => d.name ≠ c.name) identifier := by
  have hfind : ∀ p : Context → Bool, p c = false →
      (contexts.map fun d => if d.name = c.name then c else d).find? p =
        (contexts.filter fun d => d.name ≠ c.name).find? p := by
    intro p hp
    induction contexts with
    | nil => rfl
    | cons d rest ih =>
      by_cases hd : d.name = c.name
      · simpa [hd, hp] using ih
      · simp [hd, List.find?_cons, ih]
  rw [Context.answersTo, Bool.or_eq_true, not_or, Bool.not_eq_true, Bool.not_eq_true] at hc
  rw [meant?, meant?, hfind _ hc.1, hfind _ hc.2]

/-- A dropped alias falls back to the other contexts. -/
theorem Indexed.means_of_dropped (h : r.Indexed) (hold : c.name ∈ r.contexts.map (·.name))
    {identifier : String} (hc : ¬ c.answersTo identifier = true) :
    Means (r.contexts.filter fun d => d.name ≠ c.name) identifier
      ((r.register c).resolve identifier) := by
  rw [(h.register c).resolve_eq, h.contexts_register_of_mem hold, meant?_replace hc]
  exact means_meant? _ identifier

/-! ## Registries that cannot be told apart -/

/-- Registries with equal contexts, whose identifiers lead to the same places. -/
structure Alike (r s : Registry) : Prop where
  /-- the contexts are equal -/
  contexts : r.contexts = s.contexts
  /-- identifiers lead to the same places -/
  index : ∀ identifier, r.index.get? identifier = s.index.get? identifier

/-- Registries in order are decided by their contexts. -/
theorem Indexed.alike (hr : r.Indexed) (hs : s.Indexed) (h : r.contexts = s.contexts) :
    Alike r s := by
  refine ⟨h, fun identifier => ?_⟩
  rw [hr.get?_index, hs.get?_index, h]

namespace Alike

theorem find?_eq (h : Alike r s) (identifier : String) :
    r.find? identifier = s.find? identifier := by
  rw [find?, find?, h.index, h.contexts]

theorem get?_eq (h : Alike r s) (name : String) : r.get? name = s.get? name := by
  rw [Registry.get?, Registry.get?, h.find?_eq]

theorem resolve_eq (h : Alike r s) (identifier : String) :
    r.resolve identifier = s.resolve identifier := by
  rw [resolve, resolve, h.find?_eq]

theorem climb_eq (h : Alike r s) (seen : List String) (parent : Option String) :
    r.climb seen parent = s.climb seen parent := by
  -- by the cases of climbing in the first registry
  induction seen, parent using climb.induct r with
  | case1 seen => rw [climb_none, climb_none]
  | case2 seen name hmem => rw [climb_of_mem hmem, climb_of_mem hmem]
  | case3 seen name hnew hget =>
    rw [climb_of_get?_eq_none hnew hget, climb_of_get?_eq_none hnew (h.get?_eq name ▸ hget)]
  | case4 seen name hnew c hget above hok ih =>
    rw [climb_of_get?_eq_some hnew hget, climb_of_get?_eq_some hnew (h.get?_eq name ▸ hget), ih]
  | case5 seen name hnew c hget e he ih =>
    rw [climb_of_get?_eq_some hnew hget, climb_of_get?_eq_some hnew (h.get?_eq name ▸ hget), ih]

theorem ancestors_eq (h : Alike r s) (c : Context) : r.ancestors c = s.ancestors c :=
  h.climb_eq [c.name] c.parent

end Alike

/-! ## Every run of registrations -/

/-- **Every run of registrations decides what its registry holds and answers.**

* Names are distinct, in the order of their first registrations, each with the context that was
  registered last under it.
* By name the context of that name is found, if there is one; an identifier is resolved to what
  it means among the contexts in their order.
* The index, kept up from one registration to the next, is the one built anew. So runs that end
  with the same contexts give registries that answer alike.
* An alias that a registration drops means from then on what it means among the others. -/
theorem registrations_decide (contexts : List Context) :
    let r := ofContexts contexts
    (r.contexts.map (·.name)).Nodup ∧
    r.contexts.map (·.name) = distinct (contexts.map (·.name)) ∧
    (∀ before c after, contexts = before ++ c :: after → c.name ∉ after.map (·.name) →
      c ∈ r.contexts) ∧
    (∀ name c, r.get? name = some c ↔ c ∈ r.contexts ∧ c.name = name) ∧
    (∀ identifier, Means r.contexts identifier (r.resolve identifier)) ∧
    (∀ identifier, r.index.get? identifier = (indexOf r.contexts).get? identifier) ∧
    (∀ others, (ofContexts others).contexts = r.contexts →
      (∀ name, (ofContexts others).get? name = r.get? name) ∧
      (∀ identifier, (ofContexts others).resolve identifier = r.resolve identifier) ∧
      (∀ c, (ofContexts others).ancestors c = r.ancestors c) ∧
      ∀ c, Alike ((ofContexts others).register c) (r.register c)) ∧
    ∀ c, c.name ∈ r.contexts.map (·.name) → ∀ identifier, ¬ c.answersTo identifier = true →
      Means (r.contexts.filter fun d => d.name ≠ c.name) identifier
        ((r.register c).resolve identifier) := by
  intro r
  have hr : r.Indexed := indexed_ofContexts contexts
  refine ⟨hr.nodup, map_name_ofContexts contexts, ?_, fun name c => hr.get?_eq_some_iff,
    hr.means_resolve, ?_, ?_, fun c hold identifier => hr.means_of_dropped hold⟩
  · rintro before c after rfl hlast
    exact mem_ofContexts_of_last c hlast
  · intro identifier
    rw [hr.get?_index, get?_indexOf hr.nodup]
  · intro others hsame
    have hothers := indexed_ofContexts others
    have halike := hothers.alike hr hsame
    refine ⟨halike.get?_eq, halike.resolve_eq, halike.ancestors_eq, fun c => ?_⟩
    exact (hothers.register c).alike (hr.register c) (hothers.contexts_register_congr hr hsame c)

end Checkup.Registry
