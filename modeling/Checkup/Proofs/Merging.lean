import Checkup.Config.Merge
import Checkup.Proofs.Catalogs

/-!
# Plans under a workspace

A workspace configuration that is laid over the built-in one leaves alone what it does not
mention. So requests for built-in contexts are planned as before:

* `of_merge_eq_ok`, `get?_commands_of_merge` — what merging does to contexts and to commands.
* `Registry.climb_of_extends` — a registry that knows more contexts has the same ancestors.
* `activeContexts_of_merge` — a request for built-in contexts is expanded as before.
* `merge_keeps_plans` — and so is planned as before.
-/

namespace Checkup

/-! ## What merging keeps -/

namespace Config

variable {builtIn workspace merged : Config}

/-- New contexts follow those that are there. -/
theorem entries_mergeContexts {added : List (String × ContextConfig)} :
    ∀ {contexts result : OrderedMap ContextConfig}, mergeContexts contexts added = .ok result →
      result.entries = contexts.entries ++ added := by
  induction added with
  | nil =>
    intro contexts result h
    cases h
    exact (List.append_nil _).symm
  | cons e rest ih =>
    obtain ⟨name, context⟩ := e
    intro contexts result h
    rw [mergeContexts] at h
    split at h
    · cases h
    · rename_i hnew
      have hstore : (contexts.insert name context).entries =
          contexts.entries ++ [(name, context)] :=
        OrderedMap.store_of_new (mt OrderedMap.contains_iff.mpr hnew)
      rw [ih h, hstore, List.append_assoc, List.singleton_append]

/-- What a workspace makes of a command: it patches the one of the same name, if there is one. -/
def patchedOver (old : Option CommandConfig) (patch : CommandConfig) : CommandConfig :=
  match old with
  | some base => base.combine patch
  | none => patch

/-- The commands of a workspace are laid over those that are there. -/
theorem mergeCommands_eq (commands : OrderedMap CommandConfig)
    (patches : List (String × CommandConfig)) :
    patches.foldl (fun commands (name, patch) => mergeCommand commands name patch) commands =
      OrderedMap.overlay patchedOver commands patches := by
  have hstep : ∀ (commands : OrderedMap CommandConfig) (e : String × CommandConfig),
      mergeCommand commands e.1 e.2 =
        commands.insert e.1 (patchedOver (commands.get? e.1) e.2) := by
    intro commands e
    rw [mergeCommand]
    cases commands.get? e.1 <;> rfl
  rw [OrderedMap.overlay]
  simp only [← hstep]

/-- Without an override the result has the contexts of both, the patched commands, and otherwise
what the workspace says. -/
theorem of_merge_eq_ok (hover : workspace.general.overrideDefaults = false)
    (h : builtIn.merge workspace = .ok merged) :
    merged.contexts.entries = builtIn.contexts.entries ++ workspace.contexts.entries ∧
      merged.commands = OrderedMap.overlay patchedOver builtIn.commands workspace.commands.entries ∧
      merged.general = workspace.general ∧ merged.sources = workspace.sources ∧
      merged.logging = workspace.logging := by
  rw [merge, if_neg (by simp [hover])] at h
  obtain ⟨contexts, hcontexts, h⟩ := bind_eq_ok h
  cases h
  exact ⟨entries_mergeContexts hcontexts, mergeCommands_eq .., rfl, rfl, rfl⟩

/-- The command of a name: patched, new or as before. -/
theorem get?_commands_of_merge (hover : workspace.general.overrideDefaults = false)
    (h : builtIn.merge workspace = .ok merged) (name : String) :
    merged.commands.get? name =
      ((workspace.commands.get? name).map (patchedOver (builtIn.commands.get? name))).or
        (builtIn.commands.get? name) := by
  rw [(of_merge_eq_ok hover h).2.1]
  exact OrderedMap.get?_overlay workspace.commands.nodup name

end Config

/-! ## Registries that know more -/

namespace Registry

/-- What one registry finds by name, the other finds too. -/
def Extends (s r : Registry) : Prop :=
  ∀ name c, r.get? name = some c → s.get? name = some c

/-- A walk to a root is the same where more contexts are known. -/
theorem climb_of_extends {r s : Registry} (h : s.Extends r) {seen : List String}
    {parent : Option String} {above : List Context} (hok : r.climb seen parent = .ok above) :
    s.climb seen parent = .ok above := by
  -- by the cases of climbing: every step to a context is one in the other registry
  induction seen, parent using climb.induct r generalizing above with
  | case1 seen => rwa [climb_none] at hok ⊢
  | case2 seen name hmem =>
    rw [climb_of_mem hmem] at hok
    cases hok
  | case3 seen name hnew hget =>
    rw [climb_of_get?_eq_none hnew hget] at hok
    cases hok
  | case4 seen name hnew c hget higher hclimb ih =>
    rw [climb_of_get?_eq_some hnew hget, hclimb] at hok
    rw [climb_of_get?_eq_some hnew (h name c hget), ih hclimb]
    exact hok
  | case5 seen name hnew c hget e hfails ih =>
    rw [climb_of_get?_eq_some hnew hget, hfails] at hok
    cases hok

theorem ancestors_of_extends {r s : Registry} (h : s.Extends r) {c : Context}
    {above : List Context} (hok : r.ancestors c = .ok above) : s.ancestors c = .ok above :=
  climb_of_extends h hok

end Registry

namespace Config

variable {builtIn workspace merged : Config}

/-! ## Built-in contexts in the merged configuration -/

/-- Built-in contexts stay. -/
theorem mem_contextList_of_merge (hover : workspace.general.overrideDefaults = false)
    (h : builtIn.merge workspace = .ok merged) {x : Context} (hx : x ∈ builtIn.contextList) :
    x ∈ merged.contextList := by
  obtain ⟨e, he, rfl⟩ := mem_contextList.mp hx
  refine mem_contextList.mpr ⟨e, ?_, rfl⟩
  rw [(of_merge_eq_ok hover h).1]
  exact List.mem_append_left _ he

theorem extends_of_merge (hover : workspace.general.overrideDefaults = false)
    (h : builtIn.merge workspace = .ok merged) :
    merged.registry.Extends builtIn.registry := by
  intro name x hget
  obtain rfl := Registry.name_of_get? hget
  have hx := Registry.mem_of_get? hget
  rw [contexts_registry] at hx
  refine indexed_registry.get?_of_mem ?_
  rw [contexts_registry]
  exact mem_contextList_of_merge hover h hx

/-- An identifier of a built-in context cannot be captured: it would have two owners. -/
theorem resolve_of_merge (hover : workspace.general.overrideDefaults = false)
    (h : builtIn.merge workspace = .ok merged) (haliases : builtIn.ownership.2 = [])
    (haliases' : merged.ownership.2 = []) {identifier : String} {x : Context}
    (hx : builtIn.registry.resolve identifier = .ok x) :
    merged.registry.resolve identifier = .ok x := by
  rw [resolve_eq_ok_iff haliases] at hx
  rw [resolve_eq_ok_iff haliases']
  exact ⟨mem_contextList_of_merge hover h hx.1, hx.2⟩

/-- A request for built-in contexts is expanded as before. -/
theorem activeContexts_of_merge (hover : workspace.general.overrideDefaults = false)
    (h : builtIn.merge workspace = .ok merged) (haliases : builtIn.ownership.2 = [])
    (haliases' : merged.ownership.2 = []) (hparents : builtIn.parentProblems = [])
    {requested : List String} (hsome : requested ≠ [])
    (hknown : ∀ id ∈ requested, builtIn.Knows id) :
    ∃ active, builtIn.uncheckedPlanner.activeContexts requested = .ok active ∧
      merged.uncheckedPlanner.activeContexts requested = .ok active := by
  obtain ⟨active, hactive⟩ := activeContexts_of_knows hparents hknown
  refine ⟨active, hactive, ?_⟩
  rw [← hactive]
  -- the same contexts are asked for
  have hempty : ¬ requested.isEmpty = true := by simpa using hsome
  obtain ⟨roots, hroots, hmem⟩ := roots_of_knows hknown
  have hroots' : merged.uncheckedPlanner.roots requested = .ok roots := by
    rw [← hroots, Planner.roots, Planner.roots, if_neg hempty, if_neg hempty]
    refine mapM_congr fun id hid => ?_
    rcases builtIn.resolve_cases id with ⟨-, x, -, hx⟩ | ⟨hunknown, -⟩
    · exact (resolve_of_merge hover h haliases haliases' hx).trans hx.symm
    · exact absurd (hknown id hid) hunknown
  -- and each has the same ancestors
  have hlineages : roots.mapM merged.uncheckedPlanner.lineage =
      roots.mapM builtIn.uncheckedPlanner.lineage := by
    refine mapM_congr fun x hx => ?_
    obtain ⟨above, habove⟩ := ancestors_of_no_problem hparents (hmem x hx)
    have habove' := Registry.ancestors_of_extends (extends_of_merge hover h) habove
    rw [Planner.lineage, Planner.lineage, uncheckedPlanner, uncheckedPlanner, habove, habove']
  rw [Planner.activeContexts, Planner.activeContexts, hroots, hroots']
  change (roots.mapM merged.uncheckedPlanner.lineage >>= _) =
    (roots.mapM builtIn.uncheckedPlanner.lineage >>= _)
  rw [hlineages]

/-! ## Built-in commands in the merged configuration -/

/-- A command that the workspace does not mention is as before. -/
theorem get?_catalog_of_merge (hover : workspace.general.overrideDefaults = false)
    (h : builtIn.merge workspace = .ok merged) {name : String}
    (hname : name ∉ workspace.commands.keys) :
    merged.catalog.get? name = builtIn.catalog.get? name := by
  rw [get?_catalog, get?_catalog, get?_commands_of_merge hover h,
    OrderedMap.get?_eq_none_iff.mpr hname]
  rfl

/-- **Laying a workspace over valid defaults keeps their plans**, as far as the result is valid:
a request for built-in contexts makes the same contexts active in the same order; a command
that the workspace does not mention is resolved to the same entry, and has the same entries in
the plan, whatever the filter. -/
theorem merge_keeps_plans (hbuiltIn : builtIn.problems = [])
    (hover : workspace.general.overrideDefaults = false)
    (hmerge : builtIn.merge workspace = .ok merged) (hmerged : merged.problems = []) :
    ∃ p q, builtIn.planner = .ok p ∧ merged.planner = .ok q ∧
      ∀ requested, requested ≠ [] → (∀ id ∈ requested, builtIn.Knows id) →
        ∃ active, p.activeContexts requested = .ok active ∧
          q.activeContexts requested = .ok active ∧
          ∀ name ∈ builtIn.commands.keys, name ∉ workspace.commands.keys →
            ∃ entry, p.resolveCommand name requested = .ok entry ∧
              q.resolveCommand name requested = .ok entry ∧
              ∀ filter, ∃ before after, p.plan requested filter = .ok before ∧
                q.plan requested filter = .ok after ∧
                (entry ∈ after.entries ↔ entry ∈ before.entries) ∧
                ∀ e, e.command = name → (e ∈ after.entries ↔ e ∈ before.entries) := by
  obtain ⟨haliases, hparents, -, -⟩ := problems_eq_nil_iff.mp hbuiltIn
  obtain ⟨haliases', -, -, -⟩ := problems_eq_nil_iff.mp hmerged
  refine ⟨builtIn.uncheckedPlanner, merged.uncheckedPlanner, planner_of_no_problem hbuiltIn,
    planner_of_no_problem hmerged, fun requested hsome hknown => ?_⟩
  obtain ⟨active, hactive, hactive'⟩ :=
    activeContexts_of_merge hover hmerge haliases haliases' hparents hsome hknown
  refine ⟨active, hactive, hactive', fun name hkey hname => ?_⟩
  obtain ⟨config, hconfig⟩ : ∃ config, builtIn.commands.get? name = some config := by
    rwa [← OrderedMap.contains_iff, OrderedMap.contains, Option.isSome_iff_exists] at hkey
  have hcommand : builtIn.catalog.get? name = some (config.toCommand name) := by
    rw [get?_catalog, hconfig]
    rfl
  have hsame := get?_catalog_of_merge hover hmerge hname
  have hentries : ∀ filter e, e.command = name →
      (e ∈ (merged.uncheckedPlanner.planUnder filter active).entries ↔
        e ∈ (builtIn.uncheckedPlanner.planUnder filter active).entries) := by
    rintro filter e rfl
    rw [Planner.mem_entries_iff nodup_catalog, Planner.mem_entries_iff nodup_catalog,
      uncheckedPlanner, uncheckedPlanner, hsame]
  refine ⟨Planner.entry active (config.toCommand name),
    Planner.resolveCommand_eq_ok hcommand hactive,
    Planner.resolveCommand_eq_ok (hsame.trans hcommand) hactive', fun filter => ?_⟩
  refine ⟨builtIn.uncheckedPlanner.planUnder filter active,
    merged.uncheckedPlanner.planUnder filter active, ?_, ?_, hentries filter _ rfl,
    hentries filter⟩
  · rw [Planner.plan_eq, hactive]
    rfl
  · rw [Planner.plan_eq, hactive']
    rfl

/-- A workspace with a default context below a built-in one, and a command of its own. -/
def localRules : Config where
  contexts := .ofList
    [("local", { aliases := ["l"], isDefault := true, parent := some "strict" })]
  commands := .ofList
    [("ruff", { help := some "Lint", contexts := .ofList [("strict", .flag true)] })]
  sources := .ofList [("lib", { contexts := ["l"] })]

/-- The workspace over the built-in configuration. -/
def layeredLocal : Config := (layered.merge localRules).toOption.getD {}

theorem merge_keeps_plans_layered : layered.problems = [] ∧
    localRules.general.overrideDefaults = false ∧
    layered.merge localRules = .ok layeredLocal ∧ layeredLocal.problems = [] ∧
    ∃ p q, layered.planner = .ok p ∧ layeredLocal.planner = .ok q ∧
      ∃ active, p.activeContexts ["s"] = .ok active ∧ q.activeContexts ["s"] = .ok active ∧
      ∃ entry, p.resolveCommand "mypy" ["s"] = .ok entry ∧
        q.resolveCommand "mypy" ["s"] = .ok entry := by
  have hbuiltIn : layered.problems = [] := by decide +kernel
  have hmerge : layered.merge localRules = .ok layeredLocal := by decide +kernel
  have hmerged : layeredLocal.problems = [] := by decide +kernel
  obtain ⟨p, q, hp, hq, hplans⟩ := merge_keeps_plans hbuiltIn rfl hmerge hmerged
  have hknown : ∀ id ∈ ["s"], layered.Knows id := by
    intro id hid
    rw [knows_iff_owned]
    revert id
    decide +kernel
  obtain ⟨active, hactive, hactive', hcommands⟩ := hplans ["s"] (by decide) hknown
  obtain ⟨entry, hentry, hentry', -⟩ :=
    hcommands "mypy" (by decide +kernel) (by decide +kernel)
  exact ⟨hbuiltIn, rfl, hmerge, hmerged, p, q, hp, hq, active, hactive, hactive', entry, hentry,
    hentry'⟩

end Config

end Checkup
