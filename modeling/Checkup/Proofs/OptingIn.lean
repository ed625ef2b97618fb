import Checkup.Proofs.Layering
import Checkup.Proofs.Resolution

/-!
# Patches opt in

A command could be patched by a context that it does not belong to; the patch would change its
arguments, but not make it run. The tables of a configuration do not lead to such commands:

* `Command.PatchesOptIn` — a command that belongs to every context that patches it.
* `Command.PatchesOptIn.mem_selecting`, `Command.PatchesOptIn.effectiveArgs_eq_baseArgs` — an
  active context that patches it selects it, so no patch applies to what nothing selects.
* `CommandConfig.patchesOptIn_toCommand` — the commands of every configuration are of this kind.
* `Config.setting?_of_merge` — what a merge makes of two tables, context by context.
* `Plan.Entry.FollowsTable` — a command that is resolved by the rules of its table, all of them
  (`followsTable_entry`).
* `Planner.patches_opt_in` — what this comes to when commands are resolved and planned.
-/

namespace Checkup

/-- Every context that patches a command is one that it belongs to. -/
def Command.PatchesOptIn (command : Command) : Prop :=
  ∀ name ∈ command.patches.keys, command.membership.get? name = some true

namespace Command.PatchesOptIn

variable {command : Command} {active : List Context} {x : Context}

theorem isSelectedBy (h : command.PatchesOptIn) (hpatch : x.name ∈ command.patches.keys) :
    command.isSelectedBy x = true := by
  rw [Command.isSelectedBy, h x.name hpatch]
  rfl

/-- An active context with a patch is among those that select the command. -/
theorem mem_selecting (h : command.PatchesOptIn) (hx : x ∈ active)
    (hpatch : x.name ∈ command.patches.keys) : x.name ∈ Planner.selecting command active := by
  rw [Planner.selecting_eq]
  refine List.mem_map_of_mem (List.mem_filter.mpr ⟨hx, ?_⟩)
  exact decide_eq_true (.inl (h x.name hpatch))

/-- **No patch is lost**: if nothing selects the command, its arguments are the base arguments. -/
theorem effectiveArgs_eq_baseArgs (h : command.PatchesOptIn)
    (hnone : Planner.selecting command active = []) :
    command.effectiveArgs active = command.baseArgs := by
  have hactive : command.activePatches active = [] := by
    refine List.filterMap_eq_nil_iff.mpr fun x hx => ?_
    rw [OrderedMap.get?_eq_none_iff]
    intro hpatch
    have hmem := h.mem_selecting hx hpatch
    rw [hnone] at hmem
    cases hmem
  rw [Command.effectiveArgs, hactive]
  rfl

end Command.PatchesOptIn

/-! ## Tables -/

namespace CommandConfig

/-- The rule that a table has for a context: a patch, where a flag could be. -/
def rule? (c : CommandConfig) (context : String) : Option Patch :=
  match c.contexts.get? context with
  | some (.patch rule) => some rule
  | _ => none

variable {c : CommandConfig} {context : String} {rule : Patch}

theorem rule?_eq_some_iff :
    c.rule? context = some rule ↔ c.contexts.get? context = some (.patch rule) := by
  rw [rule?]
  split <;> simp_all

/-- Every rule of a table is a patch of its command, and nothing else is. -/
theorem get?_patches_eq_rule? (c : CommandConfig) (name context : String) :
    (c.toCommand name).patches.get? context = c.rule? context := by
  rw [rule?]
  cases hsetting : c.contexts.get? context with
  | none => rw [get?_patches, hsetting, Option.bind_none]
  | some setting =>
    have hset := isSetAs_toCommand hsetting name
    cases setting with
    | flag selected => exact hset.2
    | patch rule => exact hset.2

/-- A patch is written where a flag could be, and counts as a flag that is set. -/
theorem patchesOptIn_toCommand (c : CommandConfig) (name : String) :
    (c.toCommand name).PatchesOptIn := by
  intro context hcontext
  obtain ⟨rule, hrule⟩ := OrderedMap.exists_get?_of_mem hcontext
  rw [get?_patches_eq_rule?, rule?_eq_some_iff] at hrule
  exact (isSetAs_toCommand hrule name).1

end CommandConfig

namespace Config

/-- What the table of a command says of a context. -/
def setting? (c : Config) (name context : String) : Option ContextSetting :=
  (c.commands.get? name).bind fun settings => settings.contexts.get? context

/-- Merging loses no setting but those that the workspace replaces. -/
theorem setting?_of_merge {builtIn workspace merged : Config}
    (hover : workspace.general.overrideDefaults = false)
    (h : builtIn.merge workspace = .ok merged) (name context : String) :
    merged.setting? name context =
      (workspace.setting? name context).or (builtIn.setting? name context) := by
  rw [setting?, setting?, setting?, get?_commands_of_merge hover h]
  cases workspace.commands.get? name with
  | none => rfl
  | some patch =>
    cases builtIn.commands.get? name with
    | none => exact (Option.or_none ..).symm
    | some base => exact CommandConfig.get?_contexts_combine base patch context

end Config

/-! ## Commands as they are resolved -/

/-- A command is resolved, for active contexts, by all that its table says of them. -/
structure Plan.Entry.FollowsTable (e : Plan.Entry) (settings : CommandConfig) (command : Command)
    (active : List Context) : Prop where
  /-- the base arguments are those of the table -/
  baseArgs : command.baseArgs = settings.args.getD []
  /-- the command is patched by the rules of the table -/
  patches : ∀ context rule, command.patches.get? context = some rule ↔
    settings.contexts.get? context = some (.patch rule)
  /-- an active context with a rule selects it -/
  selected : ∀ x ∈ active, ∀ rule, settings.contexts.get? x.name = some (.patch rule) →
    command.isSelectedBy x = true ∧ x.name ∈ e.selectedBy
  /-- the rules of the active contexts clear, replace and extend the arguments, in their order -/
  args : e.args = (active.filterMap fun x => settings.rule? x.name).foldl
    (fun working rule =>
      rule.args.getD (if rule.clearArgs then [] else working) ++ rule.addArgs.getD [])
    (settings.args.getD [])
  /-- if nothing selects it, it has its base arguments -/
  unselected : e.selectedBy = [] → e.args = command.baseArgs

namespace Planner

/-- **Every rule of a table is followed** when its command is resolved. -/
theorem followsTable_entry (settings : CommandConfig) (name : String) (active : List Context) :
    (entry active (settings.toCommand name)).FollowsTable settings (settings.toCommand name)
      active := by
  have hoptIn := settings.patchesOptIn_toCommand name
  have hpatches : ∀ context rule, (settings.toCommand name).patches.get? context = some rule ↔
      settings.contexts.get? context = some (.patch rule) := by
    intro context rule
    rw [CommandConfig.get?_patches_eq_rule?, CommandConfig.rule?_eq_some_iff]
  constructor
  case baseArgs => rfl
  case patches => exact hpatches
  case selected =>
    intro x hx rule hrule
    have hkey : x.name ∈ (settings.toCommand name).patches.keys := by
      rw [← OrderedMap.contains_iff, OrderedMap.contains, (hpatches x.name rule).mpr hrule]
      rfl
    exact ⟨hoptIn.isSelectedBy hkey, hoptIn.mem_selecting hx hkey⟩
  case args =>
    change (settings.toCommand name).effectiveArgs active = _
    rw [Command.effectiveArgs, Command.activePatches]
    simp only [CommandConfig.get?_patches_eq_rule?]
    rfl
  case unselected => exact hoptIn.effectiveArgs_eq_baseArgs

/-- **A patch opts in**, in every planner with the commands of a configuration. Its commands are
those of the tables. Let a request be expanded; then each command is resolved, and

* every rule that its table has for a context patches it there; if the context is active, it
  selects the command, and the rule is applied to the arguments, in the order of the contexts;
* if nothing selects it, it has its base arguments;
* if an active context has a rule for it, every plan for the request in which the command may run
  has it, as it is resolved.

So it is in a configuration that is merged of two. Its tables have every rule of the workspace, and
every built-in rule for a context of which the workspace says nothing. -/
theorem patches_opt_in (p : Planner) (c : Config) (hcatalog : p.catalog = c.catalog)
    {requested : List String} {active : List Context}
    (hactive : p.activeContexts requested = .ok active) :
    p.catalog.commands.map (·.name) = c.commands.keys ∧
    (∀ command ∈ p.catalog.commands, ∃ settings e,
      c.commands.get? command.name = some settings ∧
      p.resolveCommand command.name requested = .ok e ∧ e.FollowsTable settings command active ∧
      ((∃ x ∈ active, ∃ rule, settings.contexts.get? x.name = some (.patch rule)) →
        ∀ filter : Filter, filter.permits command.name = true →
          ∃ plan, p.plan requested filter = .ok plan ∧ plan.get? command.name = some e)) ∧
    ∀ builtIn workspace : Config, workspace.general.overrideDefaults = false →
      builtIn.merge workspace = .ok c → ∀ name context,
        c.setting? name context =
          (workspace.setting? name context).or (builtIn.setting? name context) := by
  have hnodup : (p.catalog.commands.map (·.name)).Nodup := hcatalog ▸ Config.nodup_catalog
  refine ⟨?_, fun command hcommand => ?_, fun builtIn workspace => Config.setting?_of_merge⟩
  · rw [hcatalog, Config.commands_catalog, Config.commandList_map_name]
  · rw [hcatalog, Config.commands_catalog] at hcommand
    obtain ⟨⟨name, settings⟩, hentry, rfl⟩ := List.mem_map.mp hcommand
    have hsettings : c.commands.get? name = some settings := OrderedMap.get?_eq_some_iff.mpr hentry
    have hget : p.catalog.get? name = some (settings.toCommand name) := by
      rw [hcatalog, Config.get?_catalog, hsettings]
      rfl
    have hresolve : p.resolveCommand name requested =
        .ok (entry active (settings.toCommand name)) := resolveCommand_eq_ok hget hactive
    have hfollows := followsTable_entry settings name active
    refine ⟨settings, _, hsettings, hresolve, hfollows, ?_⟩
    rintro ⟨x, hx, rule, hrule⟩ filter hpermits
    have hselected : (entry active (settings.toCommand name)).selectedBy ≠ [] :=
      List.ne_nil_of_mem (hfollows.selected x hx rule hrule).2
    exact ((resolvesAsPlanned_of_nodup hnodup).planned _ _ _ _).mpr
      ⟨hresolve, hselected, hpermits⟩

/-- What a workspace makes of its built-in configuration. -/
def patched : Config := (Config.layered.merge Config.patching).toOption.getD {}

/-- Its command is patched by one context, and left out by the one above. -/
def patchedCommand : Command where
  name := "mypy"
  help := "Types"
  baseArgs := ["src"]
  membership := .ofList [("strict", false), ("ci", true)]
  patches := .ofList [("ci", { addArgs := some ["-q"] })]

theorem patches_opt_in_patched :
    Config.layered.merge Config.patching = .ok patched ∧
    Config.patching.setting? "mypy" "ci" = some (.patch { addArgs := some ["-q"] }) ∧
    patched.setting? "mypy" "ci" = some (.patch { addArgs := some ["-q"] }) ∧
    (∃ e, patched.uncheckedPlanner.resolveCommand "mypy" ["ci"] = .ok e ∧ "ci" ∈ e.selectedBy ∧
      e.args = ["src", "-q"] ∧
      ∃ plan, patched.uncheckedPlanner.plan ["ci"] {} = .ok plan ∧
        plan.get? "mypy" = some e) ∧
    ∃ e, patched.uncheckedPlanner.resolveCommand "mypy" ["strict"] = .ok e ∧
      e.selectedBy = [] ∧ e.args = ["src"] := by
  have hmerge : Config.layered.merge Config.patching = .ok patched := by decide +kernel
  have hstrict : patched.uncheckedPlanner.activeContexts ["strict"] = .ok
      [{ name := "strict", aliases := ["s"], parent := some "standard" },
        { name := "standard", isDefault := true }] := by decide +kernel
  have hci : patched.uncheckedPlanner.activeContexts ["ci"] = .ok
      [{ name := "ci", parent := some "strict" },
        { name := "strict", aliases := ["s"], parent := some "standard" },
        { name := "standard", isDefault := true }] := by decide +kernel
  have hmem : patchedCommand ∈ patched.uncheckedPlanner.catalog.commands := by decide +kernel
  have htable : patched.commands.get? patchedCommand.name = some
      { help := some "Types", args := some ["src"],
        contexts := .ofList
          [("strict", .flag false), ("ci", .patch { addArgs := some ["-q"] })] } := by
    decide +kernel
  obtain ⟨-, hcommands, hmerged⟩ := patches_opt_in _ patched rfl hci
  have hsaid : Config.patching.setting? "mypy" "ci" = some (.patch { addArgs := some ["-q"] }) := by
    decide +kernel
  refine ⟨hmerge, hsaid, ?_, ?_, ?_⟩
  · rw [hmerged Config.layered Config.patching rfl hmerge, hsaid, Option.some_or]
  · obtain ⟨settings, e, hsettings, hresolve, hfollows, hplanned⟩ := hcommands _ hmem
    obtain rfl := Option.some.inj (htable.symm.trans hsettings)
    have hrule := (hfollows.patches "ci" { addArgs := some ["-q"] }).mp (by decide +kernel)
    refine ⟨e, hresolve, (hfollows.selected _ List.mem_cons_self _ hrule).2,
      hfollows.args.trans (by decide +kernel), hplanned ⟨_, List.mem_cons_self, _, hrule⟩ {} rfl⟩
  · obtain ⟨settings, e, hsettings, hresolve, hfollows, -⟩ :=
      (patches_opt_in _ patched rfl hstrict).2.1 _ hmem
    have hentry : patched.uncheckedPlanner.resolveCommand "mypy" ["strict"] =
        .ok { command := "mypy", args := ["src"], selectedBy := [] } := by decide +kernel
    have hnone : e.selectedBy = [] := by
      rw [Except.ok.inj (hresolve.symm.trans hentry)]
    exact ⟨e, hresolve, hnone, hfollows.unselected hnone⟩

end Planner

end Checkup
