import Checkup.Proofs.Ancestry
import Checkup.Proofs.Ownership

/-!
# Parents and ancestors

Validation follows the parents that a configuration declares, the registry those of
its contexts. Both walk the same graph:

* `chainBack_of_trail` — a walk of the registry that comes back to its start is a
  cycle that validation finds.
* `ancestors_of_no_problem` — without problems with parents, every context has its
  chain of ancestors.
-/

namespace Checkup.Config

open Registry (Trail Outcome)

variable {c : Config}

/-- The parent that is declared is the parent of the registered context. -/
theorem parentOf_eq (name : String) : c.parentOf name = (c.registry.get? name).bind (·.parent) := by
  cases hget : c.contexts.get? name with
  | some context =>
    have hmem : context.toContext name ∈ c.registry.contexts := by
      rw [contexts_registry, mem_contextList]
      exact ⟨_, OrderedMap.get?_eq_some_iff.mp hget, rfl⟩
    have hfound := indexed_registry.get?_of_mem hmem
    rw [parentOf, hget, show name = (context.toContext name).name from rfl, hfound]
    rfl
  | none =>
    have hnone : c.registry.get? name = none := by
      rw [indexed_registry.get?_eq_none_iff, contexts_registry, contextList_map_name]
      exact OrderedMap.get?_eq_none_iff.mp hget
    rw [parentOf, hget, hnone]
    rfl

theorem parentOf_of_get? {name : String} {x : Context} (h : c.registry.get? name = some x) :
    c.parentOf name = x.parent := by
  rw [parentOf_eq, h]
  rfl

theorem mem_keys_of_get? {name : String} {x : Context} (h : c.registry.get? name = some x) :
    name ∈ c.contexts.keys := by
  rw [← contextList_map_name, ← contexts_registry]
  by_contra hne
  rw [indexed_registry.get?_eq_none_iff.mpr hne] at h
  cases h

/-! ## Cycles -/

/-- A walk that comes back to its start, and repeats no other name, is found. -/
theorem chainBack_of_trail {start : String} {met : List Context} :
    ∀ {seen : List String} {current : String},
      c.registry.Trail (c.parentOf current) met (some start) →
      (met.map (·.name)).Nodup → start ∉ met.map (·.name) → (∀ x ∈ met, x.name ∉ seen) →
      c.chainBack start seen current = some (met.map (·.name) ++ [start]) := by
  -- what is met is what validation has seen when it comes back
  induction met with
  | nil =>
    intro seen current htrail _ _ _
    rw [chainBack, htrail.eq_of_nil]
    simp
  | cons x rest ih =>
    intro seen current htrail hnodup hstart hseen
    obtain ⟨hparent, hget, htail⟩ := htrail.of_cons
    obtain ⟨hx, hrest⟩ := List.nodup_cons.mp hnodup
    simp only [List.map_cons, List.mem_cons, not_or] at hstart
    have hfresh : ∀ y ∈ rest, y.name ∉ x.name :: seen := by
      intro y hy hmem
      rcases List.mem_cons.mp hmem with heq | hmem
      · exact hx (List.mem_map.mpr ⟨y, hy, heq⟩)
      · exact hseen y (List.mem_cons_of_mem _ hy) hmem
    have htail' := ih (parentOf_of_get? hget ▸ htail) hrest hstart.2 hfresh
    rw [chainBack, hparent]
    simp only [Ne.symm hstart.1, if_false, hseen x List.mem_cons_self, dif_neg,
      mem_keys_of_get? hget, not_false_eq_true, dif_pos, htail', Option.map_some, List.map_cons,
      List.cons_append]

/-! ## No problems with parents -/

/-- Without problems with parents all declared parents exist. -/
theorem parent_mem_keys (h : c.parentProblems = []) {e : String × ContextConfig}
    (he : e ∈ c.contexts.entries) {parent : String} (hparent : e.2.parent = some parent) :
    parent ∈ c.contexts.keys := by
  have hfine := List.flatMap_eq_nil_iff.mp h e he
  by_contra hne
  have hc : c.contexts.contains parent = false := by
    rw [← Bool.not_eq_true, OrderedMap.contains_iff]
    exact hne
  simp [hparent, hc] at hfine

/-- Without problems with parents no context is its own ancestor. -/
theorem parentCycle_eq_none (h : c.parentProblems = []) {name : String}
    (hname : name ∈ c.contexts.keys) : c.parentCycle name = none := by
  obtain ⟨e, he, rfl⟩ := List.mem_map.mp hname
  have hfine := List.flatMap_eq_nil_iff.mp h e he
  cases hcycle : c.parentCycle e.1 with
  | none => rfl
  | some chain => simp [hcycle] at hfine

/-- Without problems with parents no walk from a context comes back to it. -/
theorem not_trail_back (h : c.parentProblems = []) {x : Context} {met : List Context}
    (hget : c.registry.get? x.name = some x) (hnodup : (met.map (·.name)).Nodup)
    (hx : x.name ∉ met.map (·.name)) : ¬ c.registry.Trail x.parent met (some x.name) := by
  intro htrail
  have hnone := parentCycle_eq_none h (mem_keys_of_get? hget)
  have hparent := parentOf_of_get? hget
  have hfresh : ∀ y ∈ met, y.name ∉ [x.name] := by
    intro y hy hmem
    exact hx (List.mem_map.mpr ⟨y, hy, List.mem_singleton.mp hmem⟩)
  rw [parentCycle, chainBack_of_trail (hparent ▸ htrail) hnodup hx hfresh] at hnone
  cases hnone

/-- Without problems with parents a walk from a registered context stands before
registered parents only. -/
theorem get?_ne_none_of_trail (h : c.parentProblems = []) {x : Context}
    (hx : x ∈ c.contextList) {met : List Context} {name : String}
    (htrail : c.registry.Trail x.parent met (some name)) : c.registry.get? name ≠ none := by
  induction met generalizing x with
  | nil =>
    obtain ⟨e, he, rfl⟩ := mem_contextList.mp hx
    have hkey := parent_mem_keys h he htrail.eq_of_nil
    rw [ne_eq, indexed_registry.get?_eq_none_iff, contexts_registry, contextList_map_name]
    exact fun hne => hne hkey
  | cons y rest ih =>
    obtain ⟨-, hget, htail⟩ := htrail.of_cons
    have hy := Registry.mem_of_get? hget
    rw [contexts_registry] at hy
    exact ih hy htail

/-- **Without problems with parents every context has its ancestors.** -/
theorem ancestors_of_no_problem (h : c.parentProblems = []) {x : Context}
    (hx : x ∈ c.contextList) : ∃ above, c.registry.ancestors x = .ok above := by
  have hget : c.registry.get? x.name = some x := by
    refine indexed_registry.get?_of_mem ?_
    rwa [contexts_registry]
  obtain ⟨met, next, htrail, hnodup, hself, hout⟩ := c.registry.ancestors_spec x
  generalize c.registry.ancestors x = result at hout ⊢
  cases hout with
  | root => exact ⟨met, rfl⟩
  | cycle hmem =>
    exfalso
    rcases hmem with hmem | hmem
    · -- the walk is back at the context itself
      rw [List.mem_singleton.mp hmem] at htrail
      exact not_trail_back h hget hnodup hself htrail
    · -- the walk is back at a context that it met: cut it there
      obtain ⟨y, hy, rfl⟩ := List.mem_map.mp hmem
      obtain ⟨before, after, rfl⟩ := List.append_of_mem hy
      obtain ⟨hgety, htraily⟩ := htrail.cut
      rw [List.map_append, List.map_cons, List.nodup_append] at hnodup
      obtain ⟨hyafter, hafter⟩ := List.nodup_cons.mp hnodup.2.1
      exact not_trail_back h hgety hafter hyafter htraily
  | missing _ _ hnone => exact absurd hnone (get?_ne_none_of_trail h hx htrail)

end Checkup.Config
