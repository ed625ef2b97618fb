import Checkup.Command.Catalog
import Checkup.Plan
import Checkup.Report.Style
import Checkup.Report.Table

/-!
# Reports on commands
-/

namespace Checkup.Report

/-- The commands of a plan in a table, with their help from the catalog. -/
def commandList (plan : Plan) (catalog : Catalog) : String :=
  let title := heading "Commands" ++ "\n  Active contexts: " ++ listing plan.activeContexts ++ "\n\n"
  if plan.isEmpty then title ++ "No commands selected."
  else
    let row (e : Plan.Entry) :=
      [e.command, arguments e.args, ((catalog.get? e.command).map (·.help)).getD ""]
    let table : Table := ⟨["Command", "Arguments", "Help"], plan.entries.map row⟩
    title ++ table.render

/-- One command as it would run under the active contexts. -/
def commandDetail (command : Command) (entry : Plan.Entry) (active : List String) : String :=
  heading command.name ++ "\n" ++
    "  Help: " ++ command.help ++ "\n" ++
    "  Active contexts: " ++ listing active ++ "\n" ++
    "  Arguments: " ++ arguments entry.args ++ "\n" ++
    "  Selected by: " ++
      (if entry.selectedBy.isEmpty then "not selected" else listing entry.selectedBy)

end Checkup.Report
