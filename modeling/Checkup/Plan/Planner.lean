import Checkup.Command.Catalog
import Checkup.Context.Ancestry
import Checkup.Distinct
import Checkup.Plan

/-!
# Planning

A planner turns requested contexts into a plan.

* `Planner.activeContexts` — every requested context followed by its ancestors,
  each context once; without a request, the default contexts.
* `Planner.selecting` — the active contexts that select a command: those the
  command says it belongs to and, if it speaks of no active context at all, the
  default ones.
* `Planner.plan` — the selected and permitted commands in catalog order.

Planning is all or nothing: one unknown identifier fails the whole request.
-/

namespace Checkup

/-- What there is to plan with. -/
structure Planner where
  /-- the contexts that may be asked for -/
  registry : Registry
  /-- the commands that may be planned -/
  catalog : Catalog
  deriving DecidableEq, Inhabited

namespace Planner

/-- The contexts asked for; all are resolved, or the first unknown identifier is reported. -/
def roots (p : Planner) (requested : List String) : Except ResolveError (List Context) :=
  if requested.isEmpty then .ok p.registry.defaults
  else requested.mapM p.registry.resolve

/-- A context and its ancestors, nearest first. -/
def lineage (p : Planner) (c : Context) : Except ResolveError (List Context) :=
  (p.registry.ancestors c).map (c :: ·)

/-- The active contexts, in the order in which they patch arguments. -/
def activeContexts (p : Planner) (requested : List String) :
    Except ResolveError (List Context) := do
  let roots ← p.roots requested
  let lineages ← roots.mapM p.lineage
  return distinctBy (·.name) lineages.flatten

/-- The names of the active contexts that select a command. -/
def selecting (command : Command) (active : List Context) : List String :=
  let speaks := active.any fun c => (command.membership.get? c.name).isSome
  let selects (c : Context) := command.isSelectedBy c || (c.isDefault && !speaks)
  (active.filter selects).map (·.name)

/-- A command as it would run under the active contexts. -/
def entry (active : List Context) (command : Command) : Plan.Entry where
  command := command.name
  args := command.effectiveArgs active
  selectedBy := selecting command active

/-- The plan for the requested contexts, less the commands that may not run. -/
def plan (p : Planner) (requested : List String) (filter : Filter) :
    Except ResolveError Plan := do
  let active ← p.activeContexts requested
  let entries := p.catalog.commands.filterMap fun command =>
    let e := entry active command
    if e.selectedBy.isEmpty || !filter.permits command.name then none else some e
  return ⟨active.map (·.name), entries⟩

/-- A single command for the requested contexts, selected or not. -/
def resolveCommand (p : Planner) (name : String) (requested : List String) :
    Except ResolveError Plan.Entry := do
  let command ← p.catalog.get name
  let active ← p.activeContexts requested
  return entry active command

end Planner

end Checkup
