import Checkup.Proofs.Cycles
import Checkup.Proofs.Merging

/-!
# What a merge comes to

A workspace configuration over the built-in one, said without merging them:

* `Config.merge_eq_error_iff` — which contexts cannot be merged, and which one is named.
* `Command.IsSetAs` — what a table says of a context holds of a command
  (`CommandConfig.isSetAs_toCommand`).
* `CommandConfig.IsPatched` — a built-in command as a workspace patches it
  (`isPatched_combine`).
* `Config.patchOnly_mem_problems` — which commands are left with settings that patch nothing.
* `Config.IsLayered` — all that a merged configuration says (`isLayered_of_merge`).
* `Config.merge_layers` — when a merge is refused, and what it gives otherwise.
-/

namespace Checkup

/-! ## Commands -/

/-- What a table says of a context holds of a command. A flag tells whether the command belongs to
the context, and patches nothing; a rule patches it there, and makes it belong to the context. -/
def Command.IsSetAs (command : Command) (context : String) : ContextSetting → Prop
  | .flag selected =>
    command.membership.get? context = some selected ∧ command.patches.get? context = none
  | .patch rule =>
    command.membership.get? context = some true ∧ command.patches.get? context = some rule

namespace CommandConfig

/-- A command belongs to the contexts for which it is set. -/
theorem get?_membership (c : CommandConfig) (name context : String) :
    (c.toCommand name).membership.get? context =
      (c.contexts.get? context).map ContextSetting.selects :=
  OrderedMap.get?_mapValues ..

/-- It is patched by those for which it has a patch. -/
theorem get?_patches (c : CommandConfig) (name context : String) :
    (c.toCommand name).patches.get? context =
      (c.contexts.get? context).bind ContextSetting.patch? :=
  OrderedMap.get?_ofList_filterMap ..

/-- Patches stand in the order of the contexts. -/
theorem keys_patches (c : CommandConfig) (name : String) :
    (c.toCommand name).patches.keys = c.contexts.keys.filter fun context =>
      ((c.toCommand name).patches.get? context).isSome := by
  simp only [get?_patches]
  exact OrderedMap.keys_ofList_filterMap ..

/-- The command of a table is set as the table says. -/
theorem isSetAs_toCommand {c : CommandConfig} {context : String} {setting : ContextSetting}
    (h : c.contexts.get? context = some setting) (name : String) :
    (c.toCommand name).IsSetAs context setting := by
  have hmembership : (c.toCommand name).membership.get? context = some setting.selects := by
    rw [get?_membership, h]
    rfl
  have hpatch : (c.toCommand name).patches.get? context = setting.patch? := by
    rw [get?_patches, h]
    rfl
  cases setting with
  | flag selected => exact ⟨hmembership, hpatch⟩
  | patch rule => exact ⟨hmembership, hpatch⟩

/-- A command of the built-in configuration as a workspace patches it. -/
structure IsPatched (base patch : CommandConfig) (name : String) (command : Command) : Prop where
  /-- it has the same name -/
  name_eq : command.name = name
  /-- the help is that of the workspace, else the built-in one, if there is any -/
  help : command.help = patch.help.getD (base.help.getD "")
  /-- the arguments are replaced, else extended, else dropped, else kept -/
  args : command.baseArgs =
    match patch.args, patch.addArgs, patch.clearArgs with
    | some args, _, _ => args
    | none, some more, _ => base.args.getD [] ++ more
    | none, none, true => []
    | none, none, false => base.args.getD []
  /-- contexts that are new in the workspace follow the built-in ones -/
  contexts : command.membership.keys =
    base.contexts.keys ++ patch.contexts.keys.filter fun context => context ∉ base.contexts.keys
  /-- what the workspace says of a context counts -/
  said : ∀ context setting, patch.contexts.get? context = some setting →
    command.IsSetAs context setting
  /-- of the others what was built in -/
  kept : ∀ context setting, patch.contexts.get? context = none →
    base.contexts.get? context = some setting → command.IsSetAs context setting
  /-- patches stand in the order of the contexts -/
  patches : command.patches.keys =
    command.membership.keys.filter fun context => (command.patches.get? context).isSome

/-- Of a context counts what the workspace says, else what was built in. -/
theorem get?_contexts_combine (base patch : CommandConfig) (context : String) :
    (base.combine patch).contexts.get? context =
      (patch.contexts.get? context).or (base.contexts.get? context) :=
  OrderedMap.get?_union ..

/-- **Combining is patching.** -/
theorem isPatched_combine (base patch : CommandConfig) (name : String) :
    IsPatched base patch name ((base.combine patch).toCommand name) := by
  have hkeys : (base.combine patch).contexts.keys = base.contexts.keys ++
      patch.contexts.keys.filter fun context => context ∉ base.contexts.keys :=
    OrderedMap.keys_union ..
  have hmembership : ((base.combine patch).toCommand name).membership.keys =
      (base.combine patch).contexts.keys := OrderedMap.keys_mapValues ..
  constructor
  case name_eq => rfl
  case help =>
    change (patch.help.or base.help).getD "" = _
    cases patch.help <;> rfl
  case args =>
    change (combineArgs (base.args.getD []) patch).getD [] = _
    cases hargs : patch.args with
    | some args => simp [combineArgs, hargs]
    | none =>
      cases hmore : patch.addArgs with
      | some more => simp [combineArgs, hargs, hmore]
      | none =>
        cases hclear : patch.clearArgs with
        | true => simp [combineArgs, hargs, hmore, hclear]
        | false =>
          -- no arguments and an empty list of them are the same
          cases base.args.getD [] <;> simp [combineArgs, hargs, hmore, hclear]
  case contexts => rw [hmembership, hkeys]
  case said =>
    intro context setting hsetting
    refine isSetAs_toCommand ?_ name
    rw [get?_contexts_combine, hsetting, Option.some_or]
  case kept =>
    intro context setting hnone hsetting
    refine isSetAs_toCommand ?_ name
    rw [get?_contexts_combine, hnone, Option.none_or, hsetting]
  case patches => rw [hmembership, keys_patches]

end CommandConfig

namespace Config

variable {c builtIn workspace merged : Config}

/-! ## Contexts -/

/-- Contexts cannot be merged if the name of one is taken; the first one is named. -/
theorem mergeContexts_eq_error_iff {added : List (String × ContextConfig)}
    (hn : (added.map Prod.fst).Nodup) {contexts : OrderedMap ContextConfig} {e : ConfigError} :
    mergeContexts contexts added = .error e ↔
      ∃ name, (added.map Prod.fst).find? (fun name => name ∈ contexts.keys) = some name ∧
        e = .predefinedContext name := by
  induction added generalizing contexts with
  | nil => simp [mergeContexts]
  | cons x rest ih =>
    obtain ⟨hnew, hrest⟩ := List.nodup_cons.mp hn
    by_cases hx : x.1 ∈ contexts.keys
    · rw [mergeContexts, if_pos (OrderedMap.contains_iff.mpr hx), List.map_cons,
        List.find?_cons_of_pos (by simpa using hx)]
      simp [eq_comm]
    · -- the name that is added is none of the later ones
      have hlater : ∀ name ∈ rest.map Prod.fst,
          decide (name ∈ (contexts.insert x.1 x.2).keys) = decide (name ∈ contexts.keys) := by
        intro name hname
        have hne : name ≠ x.1 := fun heq => hnew (heq ▸ hname)
        simp [OrderedMap.keys_insert, hx, hne]
      rw [mergeContexts, if_neg (mt OrderedMap.contains_iff.mp hx), ih hrest, List.map_cons,
        List.find?_cons_of_neg (by simpa using hx), ← List.head?_filter, ← List.head?_filter,
        List.filter_congr hlater]

/-- A merge is refused if the name of a context is taken; the first one is named. -/
theorem merge_eq_error_iff (hover : workspace.general.overrideDefaults = false) {e : ConfigError} :
    builtIn.merge workspace = .error e ↔
      ∃ before name after, workspace.contexts.keys = before ++ name :: after ∧
        (∀ other ∈ before, other ∉ builtIn.contexts.keys) ∧ name ∈ builtIn.contexts.keys ∧
        e = .predefinedContext name := by
  have hfind : builtIn.merge workspace = .error e ↔
      ∃ name, workspace.contexts.keys.find? (fun name => name ∈ builtIn.contexts.keys) =
        some name ∧ e = .predefinedContext name := by
    refine Iff.trans ?_ (mergeContexts_eq_error_iff workspace.contexts.nodup)
    rw [merge, if_neg (by simp [hover])]
    cases mergeContexts builtIn.contexts workspace.contexts.entries <;>
      simp [bind, Except.bind, pure, Except.pure]
  simp only [hfind, List.find?_eq_some_iff_append]
  constructor
  · rintro ⟨name, ⟨htaken, before, after, hsplit, hbefore⟩, rfl⟩
    exact ⟨before, name, after, hsplit, by simpa using hbefore, by simpa using htaken, rfl⟩
  · rintro ⟨before, name, after, hsplit, hbefore, htaken, rfl⟩
    exact ⟨name, ⟨by simpa using htaken, before, after, hsplit, by simpa using hbefore⟩, rfl⟩

/-! ## Settings that patch nothing -/

/-- A command is reported if it has settings that are there to patch another one. -/
theorem patchOnly_mem_problems {name : String} :
    .patchOnly name ∈ c.problems ↔
      ∃ command, c.commands.get? name = some command ∧
        (command.addArgs.isSome || command.clearArgs) = true := by
  rw [mem_problems_iff_of_command rfl, mem_commandProblems]
  simp [keyProblem_eq_some_iff]

/-! ## The merged configuration -/

/-- A configuration that has a workspace over the built-in one. -/
structure IsLayered (builtIn workspace merged : Config) : Prop where
  /-- general settings are those of the workspace -/
  general : merged.general = workspace.general
  /-- so are the sources -/
  sources : merged.sources = workspace.sources
  /-- and the settings of the log -/
  logging : merged.logging = workspace.logging
  /-- the contexts of the workspace follow the built-in ones -/
  contexts : merged.contexts.entries = builtIn.contexts.entries ++ workspace.contexts.entries
  /-- so do the names of its commands, as far as they are new -/
  names : merged.commands.keys =
    builtIn.commands.keys ++ workspace.commands.keys.filter fun name => name ∉ builtIn.commands.keys
  /-- a command of the workspace alone is as it is there -/
  added : ∀ name, name ∉ builtIn.commands.keys →
    merged.commands.get? name = workspace.commands.get? name
  /-- a command that the workspace does not mention is as before -/
  kept : ∀ name, name ∉ workspace.commands.keys →
    merged.commands.get? name = builtIn.commands.get? name
  /-- a command of both is patched -/
  patched : ∀ name base patch, builtIn.commands.get? name = some base →
    workspace.commands.get? name = some patch →
    ∃ command, merged.commands.get? name = some command ∧
      CommandConfig.IsPatched base patch name (command.toCommand name)
  /-- settings that patch nothing are left on commands that only one of the two has -/
  patchOnly : ∀ name, .patchOnly name ∈ merged.problems ↔
    .patchOnly name ∈ builtIn.problems ∧ name ∉ workspace.commands.keys ∨
      .patchOnly name ∈ workspace.problems ∧ name ∉ builtIn.commands.keys

/-- **What a merge gives**, if it is not refused. -/
theorem isLayered_of_merge (hover : workspace.general.overrideDefaults = false)
    (h : builtIn.merge workspace = .ok merged) : IsLayered builtIn workspace merged := by
  obtain ⟨hcontexts, hcommands, hgeneral, hsources, hlogging⟩ := of_merge_eq_ok hover h
  have hget := get?_commands_of_merge hover h
  have hadded : ∀ name, name ∉ builtIn.commands.keys →
      merged.commands.get? name = workspace.commands.get? name := by
    intro name hname
    rw [hget, OrderedMap.get?_eq_none_iff.mpr hname, Option.or_none]
    exact Option.map_id' ..
  have hkept : ∀ name, name ∉ workspace.commands.keys →
      merged.commands.get? name = builtIn.commands.get? name := by
    intro name hname
    rw [hget, OrderedMap.get?_eq_none_iff.mpr hname]
    rfl
  have hpatched : ∀ name base patch, builtIn.commands.get? name = some base →
      workspace.commands.get? name = some patch →
      merged.commands.get? name = some (base.combine patch) := by
    intro name base patch hbase hpatch
    rw [hget, hbase, hpatch]
    rfl
  constructor
  case general => exact hgeneral
  case sources => exact hsources
  case logging => exact hlogging
  case contexts => exact hcontexts
  case names =>
    rw [hcommands]
    exact OrderedMap.keys_overlay workspace.commands.nodup
  case added => exact hadded
  case kept => exact hkept
  case patched =>
    intro name base patch hbase hpatch
    exact ⟨_, hpatched name base patch hbase hpatch, CommandConfig.isPatched_combine ..⟩
  case patchOnly =>
    intro name
    simp only [patchOnly_mem_problems]
    by_cases hbuiltIn : name ∈ builtIn.commands.keys
    · by_cases hworkspace : name ∈ workspace.commands.keys
      · -- what is combined has no such settings
        obtain ⟨base, hbase⟩ := OrderedMap.exists_get?_of_mem hbuiltIn
        obtain ⟨patch, hpatch⟩ := OrderedMap.exists_get?_of_mem hworkspace
        simp [hpatched name base patch hbase hpatch, hbuiltIn, hworkspace, CommandConfig.combine]
      · simp [hkept name hworkspace, hbuiltIn, hworkspace]
    · rw [hadded name hbuiltIn, OrderedMap.get?_eq_none_iff.mpr hbuiltIn]
      simp [hbuiltIn]

/-- **A merge is exact**, whatever the two configurations say.

* A workspace that overrides the defaults stands alone.
* Any other is refused just if the name of one of its contexts is built in; the first such name,
  in its order, is the one that the error gives. Otherwise its contexts, commands and settings are
  laid over the built-in ones.
* If the built-in commands have no settings that patch nothing, such settings are left only on
  commands that the workspace brings in. -/
theorem merge_layers (builtIn workspace : Config) :
    (workspace.general.overrideDefaults = true → builtIn.merge workspace = .ok workspace) ∧
    (workspace.general.overrideDefaults = false →
      (∀ e, builtIn.merge workspace = .error e ↔
        ∃ before name after, workspace.contexts.keys = before ++ name :: after ∧
          (∀ other ∈ before, other ∉ builtIn.contexts.keys) ∧ name ∈ builtIn.contexts.keys ∧
          e = .predefinedContext name) ∧
      ((∀ name ∈ workspace.contexts.keys, name ∉ builtIn.contexts.keys) →
        ∃ merged, builtIn.merge workspace = .ok merged ∧
          IsLayered builtIn workspace merged)) ∧
    ∀ merged, builtIn.merge workspace = .ok merged →
      (∀ name, .patchOnly name ∉ builtIn.problems) →
      ∀ name, .patchOnly name ∈ merged.problems → name ∈ workspace.commands.keys ∧
        (workspace.general.overrideDefaults = false → name ∉ builtIn.commands.keys) := by
  have halone (hover : workspace.general.overrideDefaults = true) :
      builtIn.merge workspace = .ok workspace := if_pos hover
  have hown : ∀ name, .patchOnly name ∈ workspace.problems → name ∈ workspace.commands.keys := by
    intro name hname
    obtain ⟨command, hget, -⟩ := patchOnly_mem_problems.mp hname
    by_contra hkey
    rw [OrderedMap.get?_eq_none_iff.mpr hkey] at hget
    cases hget
  refine ⟨halone, fun hover => ?_, fun merged hmerged hnone name hname => ?_⟩
  · refine ⟨fun e => merge_eq_error_iff hover, fun hfree => ?_⟩
    cases hmerge : builtIn.merge workspace with
    | ok merged => exact ⟨merged, rfl, isLayered_of_merge hover hmerge⟩
    | error e =>
      obtain ⟨before, name, after, hsplit, -, htaken, -⟩ := (merge_eq_error_iff hover).mp hmerge
      exact absurd htaken (hfree name (by simp [hsplit]))
  · cases hover : workspace.general.overrideDefaults with
    | true =>
      obtain rfl : workspace = merged := Except.ok.inj ((halone hover).symm.trans hmerged)
      exact ⟨hown name hname, by simp⟩
    | false =>
      rcases ((isLayered_of_merge hover hmerged).patchOnly name).mp hname with h | ⟨h, hnew⟩
      · exact absurd h.1 (hnone name)
      · exact ⟨hown name h, fun _ => hnew⟩

/-- A workspace that patches the built-in command in two contexts, and has one of its own that is
written like a patch. -/
def patching : Config where
  contexts := .ofList [("ci", { parent := some "strict" })]
  commands := .ofList
    [("ruff", { clearArgs := true }),
      ("mypy", { addArgs := some ["src"],
                 contexts := .ofList
                  [("ci", .patch { addArgs := some ["-q"] }), ("strict", .flag false)] })]

/-- A workspace whose second context is a built-in one. -/
def redefining : Config where
  contexts := .ofList [("ci", {}), ("strict", {}), ("standard", {})]

/-- A workspace over the patching one that says nothing of the contexts of its command. -/
def retargeting : Config where
  commands := .ofList [("mypy", { args := some ["tests"] })]

theorem merge_layers_patching :
    (∃ merged command, layered.merge patching = .ok merged ∧
      merged.commands.keys = ["mypy", "ruff"] ∧ .patchOnly "ruff" ∈ merged.problems ∧
      "ruff" ∈ patching.commands.keys ∧ merged.commands.get? "mypy" = some command ∧
      (command.toCommand "mypy").help = "Types" ∧
      (command.toCommand "mypy").baseArgs = ["src"] ∧
      (command.toCommand "mypy").membership.get? "ci" = some true ∧
      (command.toCommand "mypy").patches.get? "ci" = some { addArgs := some ["-q"] } ∧
      (command.toCommand "mypy").membership.get? "strict" = some false ∧
      (command.toCommand "mypy").patches.get? "strict" = none) ∧
    (∃ merged command, patching.merge retargeting = .ok merged ∧
      merged.commands.get? "mypy" = some command ∧
      (command.toCommand "mypy").baseArgs = ["tests"] ∧
      (command.toCommand "mypy").membership.get? "ci" = some true ∧
      (command.toCommand "mypy").patches.get? "ci" = some { addArgs := some ["-q"] }) ∧
    layered.merge redefining = .error (.predefinedContext "strict") ∧
    ∀ alone : Config, alone.general.overrideDefaults = true → layered.merge alone = .ok alone := by
  have hexact := merge_layers layered
  refine ⟨?_, ?_, ?_, fun alone halone => (hexact alone).1 halone⟩
  · obtain ⟨-, hpatching, hleft⟩ := hexact patching
    obtain ⟨merged, hmerged, hlayered⟩ := (hpatching rfl).2 (by decide +kernel)
    obtain ⟨command, hcommand, hpatched⟩ := hlayered.patched "mypy"
      { help := some "Types", contexts := .ofList [("strict", .flag true)] }
      { addArgs := some ["src"],
        contexts := .ofList [("ci", .patch { addArgs := some ["-q"] }), ("strict", .flag false)] }
      (by decide +kernel) (by decide +kernel)
    have hnone : ∀ name, .patchOnly name ∉ layered.problems := by
      have hfine : layered.problems = [] := by decide +kernel
      simp [hfine]
    have hruff : .patchOnly "ruff" ∈ merged.problems :=
      (hlayered.patchOnly "ruff").mpr (.inr (by decide +kernel))
    obtain ⟨hci, hrule⟩ := hpatched.said "ci" (.patch { addArgs := some ["-q"] }) (by decide +kernel)
    obtain ⟨hstrict, hflag⟩ := hpatched.said "strict" (.flag false) (by decide +kernel)
    refine ⟨merged, command, hmerged, ?_, hruff, (hleft merged hmerged hnone "ruff" hruff).1,
      hcommand, hpatched.help, hpatched.args, hci, hrule, hstrict, hflag⟩
    rw [hlayered.names]
    decide +kernel
  · -- the rule for a context stays if the workspace does not mention that context
    obtain ⟨merged, hmerged, hlayered⟩ :=
      ((merge_layers patching retargeting).2.1 rfl).2 (by decide +kernel)
    obtain ⟨command, hcommand, hpatched⟩ := hlayered.patched "mypy"
      { addArgs := some ["src"],
        contexts := .ofList [("ci", .patch { addArgs := some ["-q"] }), ("strict", .flag false)] }
      { args := some ["tests"] } (by decide +kernel) (by decide +kernel)
    obtain ⟨hci, hrule⟩ :=
      hpatched.kept "ci" (.patch { addArgs := some ["-q"] }) rfl (by decide +kernel)
    exact ⟨merged, command, hmerged, hcommand, hpatched.args, hci, hrule⟩
  · exact (((hexact redefining).2.1 rfl).1 _).mpr
      ⟨["ci"], "strict", ["standard"], by decide +kernel, by decide +kernel, by decide +kernel, rfl⟩

end Config

end Checkup
