import Checkup.Config
import Checkup.Text.Blank

/-!
# Validation

`Config.problems` lists everything that is wrong with a configuration, in this
order: aliases, parents, commands, sources. A configuration without problems
can be planned with (`Config.planner`).
-/

namespace Checkup.Config

/-! ## Who owns an identifier -/

/-- Which context an identifier belongs to. -/
abbrev Owners := OrderedMap String

/-- Every context owns its name. -/
def nameOwners (c : Config) : Owners := c.contexts.mapValues fun name _ => name

/-- Lets the context `name` claim one alias. Its own name and its own aliases
are no news; what another context owns is a problem. -/
def claimAlias (name : String) (state : Owners × List Problem) (identifier : String) :
    Owners × List Problem :=
  let (owners, problems) := state
  if identifier = name then (owners, problems)
  else
    match owners.get? identifier with
    | some owner =>
      if owner = name then (owners, problems)
      else (owners, problems ++ [.ambiguousAlias identifier owner name])
    | none => (owners.insert identifier name, problems)

/-- The owner of every identifier, and the aliases that are claimed twice. -/
def ownership (c : Config) : Owners × List Problem :=
  c.contexts.entries.foldl
    (fun state (name, context) => context.aliases.foldl (claimAlias name) state)
    (c.nameOwners, [])

/-- The owner of every identifier. -/
def owners (c : Config) : Owners := c.ownership.1

/-! ## Parents -/

/-- The parent that a context declares. -/
def parentOf (c : Config) (name : String) : Option String :=
  (c.contexts.get? name).bind (·.parent)

/-- The configured names that are not among `seen`. -/
def unseen (c : Config) (seen : List String) : List String :=
  c.contexts.keys.filter fun name => name ∉ seen

/-- Visiting a configured name for the first time leaves fewer unseen names. -/
theorem unseen_length_lt {c : Config} {seen : List String} {name : String}
    (hmem : name ∈ c.contexts.keys) (hnew : name ∉ seen) :
    (c.unseen (name :: seen)).length < (c.unseen seen).length := by
  have hsub : c.unseen (name :: seen) = (c.unseen seen).filter fun n => n ≠ name := by
    simp only [unseen, List.filter_filter, List.mem_cons, not_or, Bool.decide_and]
  rw [hsub]
  refine List.length_filter_lt_length_iff_exists.mpr ⟨name, ?_, by simp⟩
  exact List.mem_filter.mpr ⟨hmem, by simpa using hnew⟩

/-- The parents from `current` on, up to the first return to `start`; nothing if
the walk ends or runs into a cycle elsewhere. `seen` are the names visited. -/
def chainBack (c : Config) (start : String) (seen : List String) (current : String) :
    Option (List String) :=
  match c.parentOf current with
  | none => none
  | some parent =>
    if parent = start then some [parent]
    else if _ : parent ∈ seen then none
    else if _ : parent ∈ c.contexts.keys then
      (c.chainBack start (parent :: seen) parent).map (parent :: ·)
    else none
termination_by (c.unseen seen).length
decreasing_by exact unseen_length_lt ‹_› ‹_›

/-- The parent chain that starts and ends at a context, if it is its own ancestor. -/
def parentCycle (c : Config) (start : String) : Option (List String) :=
  (c.chainBack start [start] start).map (start :: ·)

/-! ## The problems -/

/-- A parent that does not exist, and a chain that comes back. -/
def parentProblems (c : Config) : List Problem :=
  c.contexts.entries.flatMap fun (name, context) =>
    let unknown := match context.parent with
      | some parent => if c.contexts.contains parent then [] else [.unknownParent name parent]
      | none => []
    let cyclic := match c.parentCycle name with
      | some chain => [.cyclicParents name chain]
      | none => []
    unknown ++ cyclic

/-- What is wrong with one context key of a command. -/
def keyProblem (c : Config) (owners : Owners) (command key : String) : Option Problem :=
  if c.contexts.contains key then none
  else
    match owners.get? key with
    | some owner => some (.aliasAsKey command key owner)
    | none => some (.unknownKey command key)

/-- What is wrong with the commands. -/
def commandProblems (c : Config) (owners : Owners) : List Problem :=
  c.commands.entries.flatMap fun (name, command) =>
    let help := if Text.isBlankText (command.help.getD "") then [.missingHelp name] else []
    let patch :=
      if command.addArgs.isSome || command.clearArgs then [.patchOnly name] else []
    help ++ patch ++ command.contexts.keys.filterMap (c.keyProblem owners name)

/-- What is wrong with the sources. -/
def sourceProblems (c : Config) (owners : Owners) : List Problem :=
  c.sources.entries.flatMap fun (path, source) =>
    source.contexts.filterMap fun identifier =>
      if owners.contains identifier then none else some (.unknownSourceContext path identifier)

/-- Everything that is wrong with a configuration. -/
def problems (c : Config) : List Problem :=
  let (owners, aliasProblems) := c.ownership
  aliasProblems ++ c.parentProblems ++ c.commandProblems owners ++ c.sourceProblems owners

/-- The planner of a configuration without problems. -/
def planner (c : Config) : Except ConfigError Planner :=
  match c.problems with
  | [] => .ok ⟨c.registry, c.catalog⟩
  | problems => .error (.invalid problems)

end Checkup.Config
