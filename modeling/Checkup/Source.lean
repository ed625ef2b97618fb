import Checkup.Path
import Checkup.Plan.Planner

/-!
# Sources and their plans

A workspace may attach contexts and lists to a source path. Those are combined
with what the command line asks for.

* `Sources.lookup` — the settings of the first configured path around a source.
* `Sources.plans` — one plan per source.
-/

namespace Checkup

/-- What a workspace says about one source path. -/
structure SourceSettings where
  /-- contexts to add to those asked for -/
  contexts : List String := []
  /-- commands to add to the allow list -/
  allow : List String := []
  /-- commands to add to the deny list -/
  deny : List String := []
  deriving DecidableEq, Repr, Inhabited

/-- The lists of a source as a filter. -/
def SourceSettings.filter (s : SourceSettings) : Filter := ⟨s.allow, s.deny⟩

/-- The plan for one source. -/
structure SourcePlan where
  /-- the path to check -/
  source : String
  /-- what to run on it -/
  plan : Plan
  deriving DecidableEq, Repr, Inhabited

/-- The configured sources. -/
abbrev Sources := OrderedMap SourceSettings

namespace Sources

/-- The settings of the first configured path that contains `source`. -/
def lookup (sources : Sources) (source : String) : Option SourceSettings :=
  (sources.entries.find? fun e => Path.isWithin source e.1).map Prod.snd

/-- A plan for every source. Sources that are given are planned as asked, each
once. Otherwise every configured source is planned, with its own contexts and
lists added. There is no answer if there is nothing to plan for. -/
def plans (sources : Sources) (planner : Planner) (given contexts : List String)
    (filter : Filter) : Except ResolveError (Option (List SourcePlan)) :=
  if !given.isEmpty then do
    let plans ← (distinct given).mapM fun source => do
      return { source, plan := ← planner.plan contexts filter }
    return some plans
  else if sources.isEmpty then .ok none
  else do
    let plans ← sources.entries.mapM fun (source, settings) => do
      let plan ← planner.plan (contexts ++ settings.contexts) (filter.combine settings.filter)
      return { source, plan }
    return some plans

end Sources

end Checkup
