import Checkup.Context.Ancestry
import Checkup.Proofs.Registry

/-!
# Walks up the parents

`Registry.climb` follows parent names. Its walk and its end are described apart
from it:

* `Registry.Trail` — which contexts a walk meets, and the parent name before which
  it stands then.
* `Registry.Outcome` — what a walk comes to: a root, a name met before, or a
  name that no context has.
* `climb_spec` — climbing makes a walk without repetition and comes to its outcome.
* `ancestors_eq_iff` — ancestors are what such a walk comes to.
* `ancestors_eq_ok_iff` — ancestors are found just along such a walk to a root.
-/

namespace Checkup.Registry

/-- Following parent names from `parent`, the walk meets `met`, nearest first, and then
stands before the parent name `next`, if there is one. -/
inductive Trail (r : Registry) : Option String → List Context → Option String → Prop
  /-- nothing has been followed -/
  | here {next : Option String} : Trail r next [] next
  /-- the first name leads to a context, from whose parent the walk goes on -/
  | up {name : String} {c : Context} {met : List Context} {next : Option String} :
      r.get? name = some c → Trail r c.parent met next → Trail r (some name) (c :: met) next

/-- What a walk comes to that has met `met`, was not to meet `seen` and stands before
a parent name. -/
inductive Outcome (r : Registry) (seen : List String) (met : List Context) :
    Option String → Except ResolveError (List Context) → Prop
  /-- there is no parent any more -/
  | root : Outcome r seen met none (.ok met)
  /-- the name was met before -/
  | cycle {name : String} : name ∈ seen ∨ name ∈ met.map (·.name) →
      Outcome r seen met (some name) (.error (.cyclicContext name))
  /-- the name is new, and no context has it -/
  | missing {name : String} : name ∉ seen → name ∉ met.map (·.name) → r.get? name = none →
      Outcome r seen met (some name) (.error (.unknownContext name))

variable {r : Registry}

/-- A walk that meets nothing stands where it starts. -/
theorem Trail.eq_of_nil {parent next : Option String} (h : r.Trail parent [] next) :
    parent = next := by
  cases h
  rfl

/-- A walk meets the context of the first parent name first. -/
theorem Trail.of_cons {parent next : Option String} {c : Context} {met : List Context}
    (h : r.Trail parent (c :: met) next) :
    parent = some c.name ∧ r.get? c.name = some c ∧ r.Trail c.parent met next := by
  cases h with
  | up hget htail =>
    obtain rfl := name_of_get? hget
    exact ⟨rfl, hget, htail⟩

/-- A walk can be cut before any context that it meets. -/
theorem Trail.cut {parent next : Option String} {before after : List Context} {c : Context}
    (h : r.Trail parent (before ++ c :: after) next) :
    r.get? c.name = some c ∧ r.Trail c.parent after next := by
  -- what is met before the cut is left behind one after the other
  induction before generalizing parent with
  | nil => exact h.of_cons.2
  | cons d before ih => exact ih h.of_cons.2.2

/-- What a walk meets is registered. -/
theorem Trail.mem_contexts {parent next : Option String} {met : List Context}
    (h : r.Trail parent met next) : ∀ d ∈ met, d ∈ r.contexts := by
  induction h with
  | here => exact nofun
  | up hget _ ih => exact List.forall_mem_cons.mpr ⟨mem_of_get? hget, ih⟩

/-- A context met on the way makes the outcome the one with its name among the seen. -/
theorem Outcome.cons {seen : List String} {met : List Context} {next : Option String}
    {c : Context} {result : Except ResolveError (List Context)}
    (h : Outcome r (c.name :: seen) met next result) :
    Outcome r seen (c :: met) next (result.map (c :: ·)) := by
  cases h with
  | root => exact .root
  | cycle hmem =>
    refine .cycle ?_
    simp only [List.mem_cons, List.map_cons] at hmem ⊢
    tauto
  | missing hseen hmet hget =>
    simp only [List.mem_cons, not_or] at hseen
    refine .missing hseen.2 ?_ hget
    simp only [List.map_cons, List.mem_cons, not_or]
    exact ⟨hseen.1, hmet⟩

/-- The outcome of a walk is that of the walk without its first context. -/
theorem Outcome.of_cons {seen : List String} {met : List Context} {next : Option String}
    {c : Context} {result : Except ResolveError (List Context)}
    (h : Outcome r seen (c :: met) next result) :
    ∃ rest, Outcome r (c.name :: seen) met next rest ∧ result = rest.map (c :: ·) := by
  cases h with
  | root => exact ⟨.ok met, .root, rfl⟩
  | cycle hmem =>
    refine ⟨_, .cycle ?_, rfl⟩
    simp only [List.mem_cons, List.map_cons] at hmem ⊢
    tauto
  | missing hseen hmet hget =>
    simp only [List.mem_cons, List.map_cons, not_or] at hmet
    refine ⟨_, .missing ?_ hmet.2 hget, rfl⟩
    simp only [List.mem_cons, not_or]
    exact ⟨hmet.1, hseen⟩

/-- What climbing makes of a walk and its end. -/
def Climbed (r : Registry) (seen : List String) (parent : Option String) : Prop :=
  ∃ (met : List Context) (next : Option String),
    r.Trail parent met next ∧ (met.map (·.name)).Nodup ∧ (∀ c ∈ met, c.name ∉ seen) ∧
      Outcome r seen met next (r.climb seen parent)

theorem Climbed.up {seen : List String} {name : String} {c : Context} (hnew : name ∉ seen)
    (hget : r.get? name = some c) (h : r.Climbed (name :: seen) c.parent) :
    r.Climbed seen (some name) := by
  obtain rfl := name_of_get? hget
  obtain ⟨met, next, htrail, hnodup, hfresh, hout⟩ := h
  refine ⟨c :: met, next, .up hget htrail, ?_, ?_, ?_⟩
  · refine List.nodup_cons.mpr ⟨fun hmem => ?_, hnodup⟩
    obtain ⟨d, hd, hname⟩ := List.mem_map.mp hmem
    exact hfresh d hd (by simp [hname])
  · intro d hd
    rcases List.mem_cons.mp hd with rfl | hd
    · exact hnew
    · exact fun hmem => hfresh d hd (List.mem_cons_of_mem _ hmem)
  · rw [climb_of_get?_eq_some hnew hget]
    exact hout.cons

/-- **Climbing**: the contexts met are distinct and new, and the result is the outcome. -/
theorem climb_spec (r : Registry) (seen : List String) (parent : Option String) :
    r.Climbed seen parent := by
  -- by the cases of climbing: an end, a name met before, a name of no context, or a step up
  induction seen, parent using climb.induct r with
  | case1 seen =>
    refine ⟨[], none, .here, List.nodup_nil, by simp, ?_⟩
    rw [climb_none]
    exact .root
  | case2 seen name hmem =>
    refine ⟨[], some name, .here, List.nodup_nil, by simp, ?_⟩
    rw [climb_of_mem hmem]
    exact .cycle (.inl hmem)
  | case3 seen name hnew hget =>
    refine ⟨[], some name, .here, List.nodup_nil, by simp, ?_⟩
    rw [climb_of_get?_eq_none hnew hget]
    exact .missing hnew (by simp) hget
  | case4 seen name hnew c hget above hok ih => exact ih.up hnew hget
  | case5 seen name hnew c hget e he ih => exact ih.up hnew hget

/-- A walk that comes to no name twice is what climbing meets, with its outcome. -/
theorem climb_of_trail {seen : List String} {parent next : Option String} {met : List Context}
    {result : Except ResolveError (List Context)} (h : r.Trail parent met next)
    (hnodup : (met.map (·.name)).Nodup) (hfresh : ∀ c ∈ met, c.name ∉ seen)
    (hout : Outcome r seen met next result) : r.climb seen parent = result := by
  induction met generalizing seen parent result with
  | nil =>
    obtain rfl := h.eq_of_nil
    cases hout with
    | root => exact r.climb_none seen
    | cycle hmem => exact climb_of_mem (hmem.resolve_right List.not_mem_nil)
    | missing hseen _ hget => exact climb_of_get?_eq_none hseen hget
  | cons c rest ih =>
    obtain ⟨rfl, hget, htail⟩ := h.of_cons
    obtain ⟨hc, hrest⟩ := List.nodup_cons.mp hnodup
    obtain ⟨hnew, hfresh⟩ := List.forall_mem_cons.mp hfresh
    have hfresh' : ∀ d ∈ rest, d.name ∉ c.name :: seen := by
      intro d hd hmem
      rcases List.mem_cons.mp hmem with hname | hmem
      · exact hc (List.mem_map.mpr ⟨d, hd, hname⟩)
      · exact hfresh d hd hmem
    obtain ⟨above, habove, rfl⟩ := hout.of_cons
    rw [climb_of_get?_eq_some hnew hget, ih htail hrest hfresh' habove]

/-- Looking for the ancestors of a context is climbing from it, without coming back to it. -/
theorem ancestors_spec (r : Registry) (c : Context) :
    ∃ (met : List Context) (next : Option String),
      r.Trail c.parent met next ∧ (met.map (·.name)).Nodup ∧ c.name ∉ met.map (·.name) ∧
        Outcome r [c.name] met next (r.ancestors c) := by
  obtain ⟨met, next, htrail, hnodup, hfresh, hout⟩ := r.climb_spec [c.name] c.parent
  refine ⟨met, next, htrail, hnodup, fun hmem => ?_, hout⟩
  obtain ⟨d, hd, hname⟩ := List.mem_map.mp hmem
  exact hfresh d hd (by simp [hname])

/-- **A walk that comes to no name twice, and its outcome**, are what the ancestors come to. -/
theorem ancestors_eq_iff {c : Context} {result : Except ResolveError (List Context)} :
    r.ancestors c = result ↔ ∃ met next, r.Trail c.parent met next ∧
      ((c :: met).map (·.name)).Nodup ∧ Outcome r [c.name] met next result := by
  constructor
  · rintro rfl
    obtain ⟨met, next, htrail, hnodup, hself, hout⟩ := r.ancestors_spec c
    exact ⟨met, next, htrail, List.nodup_cons.mpr ⟨hself, hnodup⟩, hout⟩
  · rintro ⟨met, next, htrail, hnodup, hout⟩
    obtain ⟨hself, hnodup⟩ := List.nodup_cons.mp hnodup
    refine climb_of_trail htrail hnodup (fun d hd hmem => hself ?_) hout
    exact List.mem_map.mpr ⟨d, hd, List.mem_singleton.mp hmem⟩

/-- The ancestors of a context are what a walk from it meets, if the walk comes to a root and to
no name twice. -/
theorem ancestors_eq_ok_iff {c : Context} {above : List Context} :
    r.ancestors c = .ok above ↔
      r.Trail c.parent above none ∧ ((c :: above).map (·.name)).Nodup := by
  rw [ancestors_eq_iff]
  constructor
  · rintro ⟨met, next, htrail, hnodup, hout⟩
    cases hout
    exact ⟨htrail, hnodup⟩
  · rintro ⟨htrail, hnodup⟩
    exact ⟨above, none, htrail, hnodup, .root⟩

end Checkup.Registry
