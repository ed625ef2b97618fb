import Checkup.Config
import Checkup.Error

/-!
# Merging

A workspace configuration is laid over the built-in one.

* `CommandConfig.combine` — a workspace command patches the built-in command of
  the same name.
* `Config.merge` — new commands and contexts follow the built-in ones; built-in
  contexts cannot be redefined.
-/

namespace Checkup

namespace CommandConfig

/-- The arguments of a patched command: replaced, else extended, else dropped,
else kept. Having no arguments and having an empty list are the same here. -/
def combineArgs (base : List String) (patch : CommandConfig) : Option (List String) :=
  match patch.args, patch.addArgs with
  | some args, _ => some args
  | none, some more => some (base ++ more)
  | none, none => if patch.clearArgs || base.isEmpty then none else some base

/-- A built-in command as patched by a workspace. -/
def combine (base patch : CommandConfig) : CommandConfig where
  help := patch.help.or base.help
  args := combineArgs (base.args.getD []) patch
  addArgs := none
  clearArgs := false
  contexts := base.contexts.union patch.contexts

end CommandConfig

namespace Config

/-- Lays one workspace command over the commands so far. -/
def mergeCommand (commands : OrderedMap CommandConfig) (name : String)
    (patch : CommandConfig) : OrderedMap CommandConfig :=
  match commands.get? name with
  | some base => commands.insert name (base.combine patch)
  | none => commands.insert name patch

/-- Adds the contexts of a workspace, none of which may be there already. -/
def mergeContexts (contexts : OrderedMap ContextConfig) :
    List (String × ContextConfig) → Except ConfigError (OrderedMap ContextConfig)
  | [] => .ok contexts
  | (name, context) :: rest =>
    if contexts.contains name then .error (.predefinedContext name)
    else mergeContexts (contexts.insert name context) rest

/-- The configuration of a workspace over the built-in one. A workspace that
overrides the defaults stands alone. -/
def merge (defaults workspace : Config) : Except ConfigError Config :=
  if workspace.general.overrideDefaults then .ok workspace
  else do
    let contexts ← mergeContexts defaults.contexts workspace.contexts.entries
    return { workspace with
      contexts := contexts
      commands := workspace.commands.entries.foldl
        (fun commands (name, patch) => mergeCommand commands name patch) defaults.commands }

end Config

end Checkup
