import Checkup.Source

/-!
# Configurations

What a configuration document says, before it is checked: general settings,
contexts, commands, sources and logging.

* `CommandConfig.toCommand` — a flag for a context is a membership; a patch for
  a context is a membership too.
* `Config.registry`, `Config.catalog` — what there is to plan with, unchecked.
-/

namespace Checkup

/-- What a document says about one context. -/
structure ContextConfig where
  /-- a description for the user -/
  help : String := ""
  /-- further identifiers -/
  aliases : List String := []
  /-- active whenever no context is asked for -/
  isDefault : Bool := false
  /-- the name of the parent context -/
  parent : Option String := none
  deriving DecidableEq, Repr, Inhabited

/-- What a command says about one context. -/
inductive ContextSetting where
  /-- the command belongs to the context, or does not -/
  | flag (selected : Bool)
  /-- the command belongs to the context, which patches its arguments -/
  | patch (p : Patch)
  deriving DecidableEq, Repr, Inhabited

/-- What a document says about one command. -/
structure CommandConfig where
  /-- a description for the user -/
  help : Option String := none
  /-- the arguments -/
  args : Option (List String) := none
  /-- arguments to add to those of a built-in command -/
  addArgs : Option (List String) := none
  /-- whether to drop the arguments of a built-in command -/
  clearArgs : Bool := false
  /-- what the command says about contexts, by name -/
  contexts : OrderedMap ContextSetting := ∅
  deriving DecidableEq, Repr, Inhabited

/-- Settings that are about no context, command or source. -/
structure GeneralSettings where
  /-- use the workspace configuration alone, without the built-in one -/
  overrideDefaults : Bool := false
  /-- how many evaluations to keep -/
  historySize : Nat := 100
  /-- the program, and its first arguments, that installs a command -/
  installCommand : List String := ["python3", "-m", "pip", "install", "-U"]
  deriving DecidableEq, Repr, Inhabited

/-- Settings of the log. -/
structure LoggingSettings where
  /-- whether to log at all -/
  enabled : Bool := true
  /-- the least severe level, or a filter -/
  level : String := "warn"
  /-- how records are written: text or json -/
  format : String := "text"
  /-- where records go: stdout, stderr or file -/
  output : String := "stderr"
  /-- the log file -/
  file : String := ".statue/statue.log"
  /-- whether a terminal gets colours -/
  color : Bool := true
  /-- levels of single modules -/
  modules : OrderedMap String := ∅
  deriving DecidableEq, Repr, Inhabited

/-- What a configuration says. -/
structure Config where
  /-- general settings -/
  general : GeneralSettings := {}
  /-- contexts by name -/
  contexts : OrderedMap ContextConfig := ∅
  /-- commands by name -/
  commands : OrderedMap CommandConfig := ∅
  /-- source paths -/
  sources : Sources := ∅
  /-- settings of the log -/
  logging : LoggingSettings := {}
  deriving DecidableEq, Repr, Inhabited

/-- The context of a name. -/
def ContextConfig.toContext (c : ContextConfig) (name : String) : Context where
  name := name
  aliases := c.aliases
  help := c.help
  isDefault := c.isDefault
  parent := c.parent

/-- Whether a setting makes the command belong to the context. -/
def ContextSetting.selects : ContextSetting → Bool
  | flag selected => selected
  | patch _ => true

/-- The patch of a setting, if it is one. -/
def ContextSetting.patch? : ContextSetting → Option Patch
  | flag _ => none
  | patch p => some p

/-- The command of a name. Every setting is a membership, and a patch is a patch as well. -/
def CommandConfig.toCommand (c : CommandConfig) (name : String) : Command where
  name := name
  help := c.help.getD ""
  baseArgs := c.args.getD []
  membership := c.contexts.mapValues fun _ s => s.selects
  patches := OrderedMap.ofList <| c.contexts.entries.filterMap fun (context, s) =>
    s.patch?.map (context, ·)

namespace Config

/-- The contexts of a configuration, in their order. -/
def registry (c : Config) : Registry :=
  Registry.ofContexts <| c.contexts.entries.map fun (name, context) => context.toContext name

/-- The commands of a configuration, in their order. -/
def catalog (c : Config) : Catalog :=
  Catalog.ofCommands <| c.commands.entries.map fun (name, command) => command.toCommand name

end Config

end Checkup
