import Checkup.Json.Writer
import Checkup.Report.Style
import Checkup.Source
import Checkup.Text.Blank

/-!
# Reports on plans

* `Report.planText` — for people.
* `Report.planJson` — for programs.
-/

namespace Checkup.Report

/-! ## For people -/

/-- The numbered commands of a plan. -/
def planLines (plan : Plan) : String :=
  if plan.isEmpty then "  No commands selected.\n"
  else
    String.join <| plan.entries.zipIdx.map fun (e, index) =>
      "  " ++ toString (index + 1) ++ ". " ++ e.command ++ " " ++ arguments e.args ++ "\n"

/-- The plan of a source. -/
def sourceSection (p : SourcePlan) : String :=
  "\n" ++ p.source ++ "\n" ++
    "  Active contexts: " ++ listing p.plan.activeContexts ++ "\n" ++ planLines p.plan

/-- The plans of all sources. -/
def planText (plans : List SourcePlan) : String :=
  Text.trimEnd (heading "Plan" ++ "\n" ++ String.join (plans.map sourceSection))

/-! ## For programs -/

/-- The record of a planned command. -/
def entryJson (e : Plan.Entry) : Json.Value :=
  .record [("command_name", .text e.command), ("resolved_args", .texts e.args),
    ("source_contexts", .texts e.selectedBy)]

/-- The record of the plan of a source. -/
def sourcePlanJson (p : SourcePlan) : Json.Value :=
  .record [("source", .text p.source),
    ("plan", .record [("active_contexts", .texts p.plan.activeContexts),
      ("entries", .array (p.plan.entries.map entryJson))])]

/-- The plans of all sources as JSON. -/
def planJson (plans : List SourcePlan) : String :=
  Json.write (.array (plans.map sourcePlanJson))

end Checkup.Report
