import Checkup.Proofs.Maps
import Checkup.Proofs.Planning

/-!
# Commands of a configuration

The catalog of a configuration holds its commands in their order, each under its own name; and
what a plan says of a command hangs on that command alone:

* `Planner.mem_entries_iff` — the entries of a plan, by the names of their commands.
* `Config.get?_catalog` — the command of a name, read off the configuration.
-/

namespace Checkup

namespace Catalog

/-- A command of a new name goes last. -/
theorem place_of_new {c : Command} {commands : List Command}
    (h : c.name ∉ commands.map (·.name)) : place c commands = commands ++ [c] := by
  induction commands with
  | nil => rfl
  | cons old rest ih =>
    rw [List.map_cons, List.mem_cons, not_or] at h
    rw [place, if_neg (Ne.symm h.1), ih h.2]
    rfl

/-- Commands with distinct names are registered as they are. -/
theorem commands_ofCommands {commands : List Command} (hn : (commands.map (·.name)).Nodup) :
    (ofCommands commands).commands = commands := by
  induction commands using List.reverseRecOn with
  | nil => rfl
  | append_singleton commands c ih =>
    rw [List.map_append, List.nodup_append] at hn
    have hnew : c.name ∉ commands.map (·.name) := fun hmem =>
      hn.2.2 c.name hmem c.name (by simp) rfl
    rw [ofCommands, List.foldl_append]
    change place c (ofCommands commands).commands = _
    rw [ih hn.1, place_of_new hnew]

/-- Of distinct names, a command is in the catalog just if it is the one of its name. -/
theorem mem_commands_iff {catalog : Catalog} (hn : (catalog.commands.map (·.name)).Nodup)
    {command : Command} :
    command ∈ catalog.commands ↔ catalog.get? command.name = some command := by
  rw [Catalog.get?, find?_key_eq_some_iff hn, and_iff_left rfl]

/-- There is no command of a name that none of them has. -/
theorem get?_eq_none_iff {catalog : Catalog} {name : String} :
    catalog.get? name = none ↔ name ∉ catalog.commands.map (·.name) := by
  rw [get?, List.find?_eq_none]
  simp

/-- There is one of every other name. -/
theorem exists_get?_of_mem {catalog : Catalog} {name : String}
    (h : name ∈ catalog.commands.map (·.name)) : ∃ command, catalog.get? name = some command :=
  Option.ne_none_iff_exists'.mp fun hnone => get?_eq_none_iff.mp hnone h

end Catalog

/-- **What is in a plan**: of every command its entry, if some active context selects it and it
may run. -/
theorem Planner.mem_entries_iff {p : Planner} (hn : (p.catalog.commands.map (·.name)).Nodup)
    {filter : Filter} {active : List Context} {e : Plan.Entry} :
    e ∈ (p.planUnder filter active).entries ↔
      ∃ command, p.catalog.get? e.command = some command ∧ e = entry active command ∧
        e.selectedBy ≠ [] ∧ filter.permits e.command = true := by
  rw [planUnder, List.mem_filterMap]
  constructor
  · rintro ⟨command, hmem, he⟩
    simp only [Option.ite_none_left_eq_some, Bool.or_eq_true, not_or, Bool.not_eq_true',
      Bool.not_eq_false, Option.some.injEq] at he
    obtain ⟨⟨hselected, hpermits⟩, rfl⟩ := he
    refine ⟨command, (Catalog.mem_commands_iff hn).mp hmem, rfl, ?_, hpermits⟩
    simpa using hselected
  · rintro ⟨command, hget, rfl, hselected, hpermits⟩
    refine ⟨command, (Catalog.mem_commands_iff hn).mpr hget, ?_⟩
    have hname : filter.permits command.name = true := hpermits
    simp [hselected, hname]

/-- The commands of a plan are those that some active context selects and that may run. -/
theorem Planner.mem_commandNames_iff {p : Planner}
    (hn : (p.catalog.commands.map (·.name)).Nodup) {filter : Filter} {active : List Context}
    {name : String} :
    name ∈ (p.planUnder filter active).commandNames ↔
      ∃ command, p.catalog.get? name = some command ∧ selecting command active ≠ [] ∧
        filter.permits name = true := by
  rw [Plan.commandNames, List.mem_map]
  constructor
  · rintro ⟨e, he, rfl⟩
    obtain ⟨command, hget, heq, hselected, hpermits⟩ := (mem_entries_iff hn).mp he
    rw [heq] at hselected
    exact ⟨command, hget, hselected, hpermits⟩
  · rintro ⟨command, hget, hselected, hpermits⟩
    have hname : command.name = name := by simpa using List.find?_some hget
    subst hname
    exact ⟨entry active command, (mem_entries_iff hn).mpr ⟨command, hget, rfl, hselected, hpermits⟩,
      rfl⟩

/-- A known command is resolved to its entry under the active contexts. -/
theorem Planner.resolveCommand_eq_ok {p : Planner} {name : String} {command : Command}
    {requested : List String} {active : List Context}
    (hcommand : p.catalog.get? name = some command)
    (hactive : p.activeContexts requested = .ok active) :
    p.resolveCommand name requested = .ok (entry active command) := by
  rw [resolveCommand, Catalog.get, hcommand, hactive]
  rfl

namespace Config

variable {c : Config}

/-- The commands of a configuration, in their order. -/
def commandList (c : Config) : List Command :=
  c.commands.entries.map fun (name, command) => command.toCommand name

/-- The names in the list are the keys of the table. -/
theorem commandList_map_name : c.commandList.map (·.name) = c.commands.keys := by
  simp [commandList, OrderedMap.keys, CommandConfig.toCommand, Function.comp_def]

/-- The catalog holds the configured commands as they are. -/
theorem commands_catalog : c.catalog.commands = c.commandList := by
  refine Catalog.commands_ofCommands ?_
  change (c.commandList.map (·.name)).Nodup
  rw [commandList_map_name]
  exact c.commands.keys_nodup

/-- The command of a name is the configured one. -/
theorem get?_catalog (name : String) :
    c.catalog.get? name = (c.commands.get? name).map fun command => command.toCommand name := by
  rw [Catalog.get?, commands_catalog]
  exact OrderedMap.find?_map_entries (fun name command => command.toCommand name) (·.name)
    (fun _ _ => rfl) c.commands name

/-- No two commands of the catalog have one name. -/
theorem nodup_catalog : (c.catalog.commands.map (·.name)).Nodup := by
  rw [commands_catalog, commandList_map_name]
  exact c.commands.keys_nodup

end Config

end Checkup
